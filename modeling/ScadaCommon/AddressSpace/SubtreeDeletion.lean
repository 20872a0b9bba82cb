import ScadaCommon.AddressSpace.SubtreeCalls

/-!
# Nodes that have gone

Each call takes out its node after what is below it, so what has gone is a post-order
of calls. A call that returns has met no cycle and no node that is not found under its
id; and where there are none, each call returns.

§1 what has gone · §2 children that are left · §3 the loop over the children · §4 a
call that returns · §5 a call that can be made.
-/

namespace ScadaCommon.AddressSpace

open Foundation Relation

variable {A : Type}

namespace AddressSpaces

variable {spaces spaces' spaces'' : AddressSpaces A} {space : SpaceId} {root ptr c m : NodePtr}
  {gone before after : List NodePtr} {fuel rounds : ℕ} {place : Place} {id : NodeId}
  {node node' : Node A} {delete : AddressSpaces A → Place → Option (AddressSpaces A)}

/-! ## §1  What has gone -/

/-- Spaces from which some nodes have gone as they should. -/
structure Gone (spaces : AddressSpaces A) (space : SpaceId) (root : NodePtr) (gone : List NodePtr)
    (spaces' : AddressSpaces A) : Prop where
  left : spaces.Left gone (spaces.remaining gone) spaces'
  found : ∀ ptr ∈ gone, spaces.found space ptr = some ptr
  children : ∀ ptr ∈ gone, ∀ child, spaces.HasChild ptr child → child ∈ gone
  cycle : ∀ ptr ∈ gone, ¬ MeetsCycle spaces.HasChild ptr
  told : ∀ ptr ∈ gone, ∀ edge ∈ spaces.heap.edgeSet, Touches edge ptr →
    spaces.isHierarchical edge.type ≠ none
  supertypes : spaces.KeepsSupertypes space root gone

theorem Gone.nil (hinv : spaces.Inv spaces.heap.edgeSet) : spaces.Gone space root [] spaces where
  left := .refl hinv
  found _ hptr := absurd hptr List.not_mem_nil
  children _ hptr := absurd hptr List.not_mem_nil
  cycle _ hptr := absurd hptr List.not_mem_nil
  told _ hptr := absurd hptr List.not_mem_nil
  supertypes _ _ _ _ _ := List.not_mem_nil

/-- The turn of a node whose children are gone. -/
theorem Gone.atTurn (h : spaces.Gone space root gone spaces')
    (hinv : spaces.Inv spaces.heap.edgeSet) (hcalled : spaces.Called space root ptr)
    (houtlive : spaces.TypesOutlive space root ptr gone) : spaces.AtTurn space root ptr gone :=
  ⟨hinv, hcalled, houtlive, h.supertypes⟩

/-- The spaces lack what they never had and what has gone. -/
theorem Gone.nodeMap_eq_none (h : spaces.Gone space root gone spaces')
    (hnone : ∀ m, spaces.nodeMap place = some m → m ∈ gone) : spaces'.nodeMap place = none := by
  refine Option.eq_none_iff_forall_not_mem.mpr fun m hm => ?_
  obtain ⟨hold, hnot⟩ := (h.left.nodeMap place m).mp hm
  exact hnot (hnone m hold)

/-- **One more node goes**: its children are gone, its references and then it. -/
theorem Gone.cons (h : spaces.Gone space root gone spaces')
    (hinv : spaces.Inv spaces.heap.edgeSet) (hcalled : spaces.Called space root ptr)
    (houtlive : spaces.TypesOutlive space root ptr gone)
    (helsewhere : ∀ edge ∈ spaces.heap.edgeSet,
      (∀ called, spaces.Called space root called → ¬ Touches edge called) → edge.type ≠ ptr)
    (hfound : spaces.found space ptr = some ptr)
    (hchildren : ∀ child, spaces.HasChild ptr child → child ∈ gone) {s s' : AddressSpaces A}
    (hreferences : deleteAllReferences ptr rounds spaces' = some s)
    (hplace : s.nodeMap place = some ptr) (hs : s.eraseNode place = some s') :
    spaces.Gone space root (ptr :: gone) s' := by
  have hturn := h.atTurn hinv hcalled houtlive
  obtain ⟨hleft, -, htold⟩ :=
    hturn.deleteAllReferences h.left remaining_cons_subset_remaining hreferences
  have htype : ∀ edge ∈ spaces.remaining (ptr :: gone), edge.type ≠ ptr := by
    intro edge hedge heq
    refine helsewhere edge hedge.1 (fun called hcalled' htouches => ?_) heq
    obtain ⟨htouches, -⟩ := houtlive edge (remaining_cons_subset_remaining hedge)
      ⟨called, hcalled', htouches⟩ (heq ▸ .refl)
    exact not_touches_of_remaining hedge htouches
  obtain ⟨node, hnode⟩ := NodeHeap.alive_iff.mp (hleft.inv.placed place ptr hplace)
  constructor
  case left => exact hleft.eraseNode rfl hplace hnode htype hs
  case found => exact List.forall_mem_cons.mpr ⟨hfound, h.found⟩
  case children =>
    refine List.forall_mem_cons.mpr ⟨fun child hchild => ?_, fun q hq child hchild => ?_⟩
    · exact List.mem_cons_of_mem _ (hchildren child hchild)
    · exact List.mem_cons_of_mem _ (h.children q hq child hchild)
  case cycle =>
    refine List.forall_mem_cons.mpr ⟨fun hcycle => ?_, h.cycle⟩
    obtain ⟨child, hchild, hcycle⟩ := hcycle.exists_step
    exact h.cycle child (hchildren child hchild) hcycle
  case told =>
    refine List.forall_mem_cons.mpr ⟨fun edge hedge htouches => ?_, h.told⟩
    by_cases hleft : edge ∈ spaces.remaining gone
    · exact htold edge hleft htouches
    · have hgone : edge.source ∈ gone ∨ edge.target ∈ gone := by
        by_contra hnot
        rw [not_or] at hnot
        exact hleft ⟨hedge, hnot.1, hnot.2⟩
      rcases hgone with hgone | hgone
      · exact h.told _ hgone edge hedge (.inl rfl)
      · exact h.told _ hgone edge hedge (.inr rfl)
  case supertypes =>
    intro edge hedge hread above habove hmem
    have hkept := remaining_cons_subset_remaining hedge
    rcases List.mem_cons.mp hmem with rfl | hmem
    · obtain ⟨htouches, -⟩ := houtlive edge hkept hread habove
      exact not_touches_of_remaining hedge htouches
    · exact h.supertypes edge hkept hread above habove hmem

/-! ## §2  Children that are left -/

theorem filter_of_sublist {α : Type} {l l' : List α} {p : α → Bool} (hsub : l'.Sublist l)
    (hnodup : l.Nodup) (hmem : ∀ a ∈ l, a ∈ l' ↔ p a = true) : l' = l.filter p := by
  induction hsub with
  | slnil => rfl
  | @cons l' l a hsub ih =>
      obtain ⟨ha, hnodup⟩ := List.nodup_cons.mp hnodup
      have hnot : ¬ p a = true := fun hp => ha (hsub.subset ((hmem a List.mem_cons_self).mpr hp))
      rw [List.filter_cons_of_neg hnot]
      exact ih hnodup fun b hb => hmem b (List.mem_cons_of_mem _ hb)
  | @cons_cons l' l a hsub ih =>
      obtain ⟨ha, hnodup⟩ := List.nodup_cons.mp hnodup
      rw [List.filter_cons_of_pos ((hmem a List.mem_cons_self).mp List.mem_cons_self)]
      refine congrArg (a :: ·) (ih hnodup fun b hb => ?_)
      have hne : b ≠ a := fun heq => ha (heq ▸ hb)
      rw [← hmem b (List.mem_cons_of_mem _ hb), List.mem_cons, or_iff_right hne]

section

variable (h : spaces.Gone space root gone spaces') (hinv : spaces.Inv spaces.heap.edgeSet)
include h hinv

/-- The references that a node still has. -/
theorem Gone.forwardReferences_eq (hptr : ptr ∉ gone) (hnode : spaces.heap.nodes ptr = some node)
    (hnode' : spaces'.heap.nodes ptr = some node') :
    node'.forwardReferences = node.forwardReferences.filter fun ref => ref.node ∉ gone := by
  obtain ⟨before, hbefore, hsub⟩ := h.left.order ptr node' hnode'
  obtain rfl := Option.some_inj.mp (hnode.symm.trans hbefore)
  refine filter_of_sublist hsub (hinv.represents.holds.nodup ptr node hnode true) fun ref href => ?_
  have hedge := (hinv.represents.holds.references ptr node hnode true ref).mp href
  refine (h.left.inv.represents.holds.references ptr node' hnode' true ref).trans ?_
  rw [decide_eq_true_iff]
  exact ⟨fun hleft => hleft.2.2, fun hleft => ⟨hedge, hptr, hleft⟩⟩

variable (hcalled : spaces.Called space root ptr)
include hcalled

theorem Gone.isHierarchical_eq (hnode' : spaces'.heap.nodes ptr = some node') {ref : Reference}
    (href : ref ∈ node'.forwardReferences) :
    spaces'.isHierarchical ref.type = spaces.isHierarchical ref.type := by
  have hedge : ⟨ref.type, ptr, ref.node⟩ ∈ spaces.remaining gone :=
    (h.left.inv.represents.holds.references ptr node' hnode' true ref).mp href
  exact h.left.isHierarchical_eq hinv (List.Subset.refl _) Set.Subset.rfl
    (h.supertypes _ hedge ⟨ptr, hcalled, .inl rfl⟩)

theorem Gone.told_left (hnode' : spaces'.heap.nodes ptr = some node')
    (htold : ∀ edge ∈ spaces.heap.edgeSet, Touches edge ptr →
      spaces.isHierarchical edge.type ≠ none) :
    ∀ ref ∈ node'.forwardReferences, spaces'.isHierarchical ref.type ≠ none := by
  intro ref href
  have hedge : ⟨ref.type, ptr, ref.node⟩ ∈ spaces.remaining gone :=
    (h.left.inv.represents.holds.references ptr node' hnode' true ref).mp href
  rw [h.isHierarchical_eq hinv hcalled hnode' href]
  exact htold _ hedge.1 (.inl rfl)

/-- **The children that a node still has**, in their order. -/
theorem Gone.children_eq (hptr : ptr ∉ gone) (halive : spaces.heap.Alive ptr) :
    spaces'.children ptr = (spaces.children ptr).filter (· ∉ gone) := by
  obtain ⟨node, hnode⟩ := NodeHeap.alive_iff.mp halive
  obtain ⟨node', hnode', -⟩ := h.left.exists_node hptr hnode
  have hfilter : node'.forwardReferences.filter (fun ref =>
      spaces'.isHierarchical ref.type = some true) =
        node'.forwardReferences.filter fun ref => spaces.isHierarchical ref.type = some true :=
    List.filter_congr fun ref href => by rw [h.isHierarchical_eq hinv hcalled hnode' href]
  rw [children_of_node hnode, children_of_node hnode', hfilter,
    h.forwardReferences_eq hinv hptr hnode hnode', List.filter_map, List.filter_filter,
    List.filter_filter]
  refine congrArg (List.map _) (List.filter_congr fun ref _ => ?_)
  exact Bool.and_comm _ _

/-- The children up to some are gone. -/
theorem Gone.children_eq_after (hptr : ptr ∉ gone) (halive : spaces.heap.Alive ptr)
    (hchildren : spaces.children ptr = before ++ after) (hbefore : before ⊆ gone) :
    spaces'.children ptr = after.filter (· ∉ gone) := by
  have hnil : before.filter (· ∉ gone) = [] :=
    List.filter_eq_nil_iff.mpr fun b hb => by simpa using hbefore hb
  rw [h.children_eq hinv hcalled hptr halive, hchildren, List.filter_append, hnil,
    List.nil_append]

theorem Gone.children_eq_cons (hptr : ptr ∉ gone) (halive : spaces.heap.Alive ptr)
    (hchildren : spaces.children ptr = before ++ c :: after) (hbefore : before ⊆ gone)
    (hc : c ∉ gone) : spaces'.children ptr = c :: after.filter (· ∉ gone) := by
  rw [h.children_eq_after hinv hcalled hptr halive hchildren hbefore,
    List.filter_cons_of_pos (by simpa using hc)]

end

/-! ## §3  The loop over the children -/

/-- What is asked of the calls that the loop makes. One for a node, when its turn and
those below it are good, visits it, or a type is missed elsewhere. -/
structure Deletes (spaces : AddressSpaces A) (space : SpaceId) (root : NodePtr)
    (delete : AddressSpaces A → Place → Option (AddressSpaces A)) : Prop where
  absent : ∀ {s s' place}, s.nodeMap place = none → delete s place = some s' → s' = s
  shrinks : ∀ {s s' place}, delete s place = some s' → s.Shrinks s'
  visits : ∀ gone s s' ptr id, spaces.Gone space root gone s → spaces.Called space root ptr →
    ptr ∉ gone → spaces.heap.idOf ptr = some id → spaces.nodeMap (space, id) = some ptr →
    (∀ t before, Turn (spaces.calls space) [ptr] gone t before →
      spaces.TypesOutlive space root t before) →
    delete s (space, id) = some s' →
    (∃ gone', Visits (spaces.calls space) [ptr] gone gone' ∧ spaces.Gone space root gone' s') ∨
      spaces.Dangles space root s'

theorem append_subset_of_mem {l : List NodePtr} (hbefore : before ⊆ l) (hc : c ∈ l) :
    before ++ [c] ⊆ l :=
  List.append_subset.mpr ⟨hbefore, List.cons_subset.mpr ⟨hc, List.nil_subset _⟩⟩

section

variable (hinv : spaces.Inv spaces.heap.edgeSet) (hdelete : spaces.Deletes space root delete)
  (hcalled : spaces.Called space root ptr) (halive : spaces.heap.Alive ptr)

include hdelete in
/-- A node that is there at the end has been there. -/
theorem Gone.not_mem_of_place (h : spaces.Gone space root gone spaces')
    (hs : deleteChildren delete space ptr rounds spaces' = some spaces'')
    (hplace : spaces''.nodeMap place = some ptr) : ptr ∉ gone :=
  ((h.left.nodeMap place ptr).mp ((shrinks_deleteChildren hdelete.shrinks hs).nodeMap _ _ hplace)).2

include hinv hdelete hcalled halive

/-- The loop gets past a child only when something is found under its id. -/
theorem Gone.exists_found (h : spaces.Gone space root gone spaces')
    (hchildren : spaces.children ptr = before ++ c :: after) (hbefore : before ⊆ gone)
    (hc : c ∉ gone) (hs : deleteChildren delete space ptr rounds spaces' = some spaces'')
    (hplace : spaces''.nodeMap place = some ptr) :
    ∃ m, spaces.found space c = some m ∧ m ∉ gone := by
  have hptr := h.not_mem_of_place hdelete hs hplace
  have hfirst := h.children_eq_cons hinv hcalled hptr halive hchildren hbefore hc
  by_contra hnot
  refine deleteChildren_stuck hdelete.absent hfirst (fun id hid => ?_) hs
  rw [h.left.idOf c hc] at hid
  refine h.nodeMap_eq_none fun m hm => ?_
  by_contra hm'
  exact hnot ⟨m, (found_eq_some_iff hid).mpr hm, hm'⟩

/-- **The loop over the children** visits those it makes calls for, and has no child
left. -/
theorem Gone.deleteChildren (hnamed : spaces.Named)
    (hchildren : spaces.children ptr = before ++ after) (hbefore : before ⊆ gone)
    (h : spaces.Gone space root gone spaces')
    (hturns : ∀ t before, Turn (spaces.calls space) (spaces.callsFor space after) gone t before →
      spaces.TypesOutlive space root t before)
    (hs : deleteChildren delete space ptr rounds spaces' = some spaces'')
    (hplace : spaces''.nodeMap place = some ptr) :
    (∃ gone', Visits (spaces.calls space) (spaces.callsFor space after) gone gone' ∧
      spaces.Gone space root gone' spaces'' ∧ after ⊆ gone') ∨
      spaces.Dangles space root spaces'' := by
  induction after generalizing before gone spaces' rounds with
  | nil =>
      have hptr := h.not_mem_of_place hdelete hs hplace
      have hnone := h.children_eq_after hinv hcalled hptr halive hchildren hbefore
      cases rounds with
      | zero => cases hs
      | succ rounds =>
          rcases deleteChildren_cases hs with ⟨-, rfl⟩ | ⟨c, cs, id, between, hcons, -⟩
          · exact .inl ⟨gone, .nil, h, List.nil_subset _⟩
          · rw [hnone] at hcons
            cases hcons
  | cons c after ih =>
      have hsplit : spaces.children ptr = (before ++ [c]) ++ after := by
        rw [hchildren, List.append_assoc]
        rfl
      by_cases hc : c ∈ gone
      · rw [callsFor, if_pos (h.found c hc)] at hturns ⊢
        refine (ih hsplit (append_subset_of_mem hbefore hc) h
          (fun t before hturn => hturns t before (.skip hc hturn)) hs).imp_left ?_
        rintro ⟨gone', hvisits, hgone', hafter⟩
        exact ⟨gone', .skip hc hvisits, hgone', List.cons_subset.mpr ⟨hvisits.subset hc, hafter⟩⟩
      have hptr := h.not_mem_of_place hdelete hs hplace
      have hfirst := h.children_eq_cons hinv hcalled hptr halive hchildren hbefore hc
      obtain ⟨m, hm, hmgone⟩ :=
        h.exists_found hinv hdelete hcalled halive hchildren hbefore hc hs hplace
      have hcall : m ∈ spaces.callsFor space (c :: after) := by
        rw [callsFor]
        split
        · rename_i heq
          cases hm.symm.trans heq
          exact List.mem_cons_self
        · rw [hm]
          exact List.mem_singleton_self m
      have hcalled' : spaces.Called space root m := by
        refine hcalled.tail (.inl ?_)
        rw [calls, hchildren, callsFor_append fun b hb => h.found b (hbefore hb)]
        exact List.mem_append_right _ hcall
      cases rounds with
      | zero => cases hs
      | succ rounds =>
          rcases deleteChildren_cases hs with
            ⟨hnil, -⟩ | ⟨d, ds, id, between, hcons, hid, hs, hrest⟩
          · rw [hfirst] at hnil
            cases hnil
          · rw [hfirst] at hcons
            cases hcons
            rw [h.left.idOf c hc] at hid
            have hfound := (found_eq_some_iff hid).mp hm
            have hmid := hnamed (space, id) m hfound
            by_cases hmc : m = c
            · subst hmc
              rw [callsFor, if_pos hm] at hturns ⊢
              rcases hdelete.visits gone spaces' between m id h hcalled' hc hmid hfound
                (fun t before hturn => hturns t before hturn.of_single) hs with
                ⟨gone₁, hvisits, hgone₁⟩ | hdangles
              case inr =>
                exact .inr (hdangles.shrinks (shrinks_deleteChildren hdelete.shrinks hrest))
              have hsub := hvisits.subset
              have hmem := hvisits.todo_subset List.mem_cons_self
              obtain ⟨below, hbelow, rfl⟩ := hvisits.of_single hc
              refine (ih hsplit (append_subset_of_mem (fun b hb => hsub (hbefore hb)) hmem) hgone₁
                (fun t before hturn => hturns t before (.after hc hbelow hturn)) hrest).imp_left ?_
              rintro ⟨gone', hvisits', hgone', hafter⟩
              exact ⟨gone', .visit hc hbelow hvisits', hgone',
                List.cons_subset.mpr ⟨hvisits'.subset hmem, hafter⟩⟩
            · -- What is found goes, and then nothing is.
              have hne : spaces.found space c ≠ some c := fun heq =>
                hmc (Option.some_inj.mp (hm.symm.trans heq))
              rw [callsFor, if_neg hne, hm] at hturns
              rcases hdelete.visits gone spaces' between m id h hcalled' hmgone hmid hfound hturns
                hs with ⟨gone₁, hvisits, hgone₁⟩ | hdangles
              case inr =>
                exact .inr (hdangles.shrinks (shrinks_deleteChildren hdelete.shrinks hrest))
              have hc₁ : c ∉ gone₁ := fun hmem => hne (hgone₁.found c hmem)
              obtain ⟨m', hm', hnot⟩ := hgone₁.exists_found hinv hdelete hcalled halive hchildren
                (fun b hb => hvisits.subset (hbefore hb)) hc₁ hrest hplace
              obtain rfl := Option.some_inj.mp (hm.symm.trans hm')
              exact absurd (hvisits.todo_subset List.mem_cons_self) hnot

end

/-! ## §4  A call that returns -/

/-- **A call that returns** has visited its node: that and what is below are gone. -/
theorem deletes_deleteNode (hinv : spaces.Inv spaces.heap.edgeSet) (hnamed : spaces.Named)
    (fuel : ℕ) : spaces.Deletes space root (deleteNode fuel) := by
  induction fuel with
  | zero =>
      refine ⟨?_, ?_, ?_⟩
      · intro s s' place _ hs
        cases hs
      · intro s s' place hs
        cases hs
      · intro gone s s' ptr id _ _ _ _ _ _ hs
        cases hs
  | succ fuel ih =>
      refine ⟨deleteNode_of_none, shrinks_deleteNode, ?_⟩
      intro gone s s' ptr id hgone hcalled hptr hid hplace hturns hs
      have hleft := (hgone.left.nodeMap (space, id) ptr).mpr ⟨hplace, hptr⟩
      rw [deleteNode, hleft] at hs
      obtain ⟨s₁, hchildren, hs⟩ := Option.bind_eq_some_iff.mp hs
      obtain ⟨s₂, hreferences, hs⟩ := Option.bind_eq_some_iff.mp hs
      obtain ⟨hplace₂, herase⟩ := check_bind_eq_some.mp hs
      have hplace₁ : s₁.nodeMap (space, id) = some ptr := by
        rw [← (deleteAllReferences_spec hreferences).1]
        exact hplace₂
      rcases hgone.deleteChildren hinv ih hcalled (hinv.placed _ ptr hplace) hnamed
        (List.nil_append _).symm (List.nil_subset _)
        (fun t before hturn => hturns t before (.child hptr hturn)) hchildren hplace₁ with
        ⟨gone₁, hvisits, hgone₁, hall⟩ | hdangles
      case inr => exact .inr (hdangles.shrinks (shrinks_of_erase hreferences hplace₂ herase))
      by_cases helsewhere : ∀ edge ∈ spaces.heap.edgeSet,
          (∀ called, spaces.Called space root called → ¬ Touches edge called) → edge.type ≠ ptr
      · refine .inl ⟨ptr :: gone₁, .visit hptr hvisits .nil, ?_⟩
        exact hgone₁.cons hinv hcalled (hturns ptr gone₁ (.here hptr hvisits)) helsewhere
          ((found_eq_some_iff hid).mpr hplace) (fun child hchild => hall hchild) hreferences
          hplace₂ herase
      · push Not at helsewhere
        obtain ⟨edge, hedge, helsewhere, rfl⟩ := helsewhere
        refine .inr ⟨id, edge, hedge, helsewhere, hcalled, hplace, ?_⟩
        rw [(eraseNode_spec hplace₂ herase).1, Function.update_self]

/-! ## §5  A call that can be made -/

/-- What holds where a call is to be made for a node of a subtree. -/
structure Ready (spaces : AddressSpaces A) (space : SpaceId) (root ptr : NodePtr)
    (gone : List NodePtr) (spaces' : AddressSpaces A) : Prop where
  state : spaces.Gone space root gone spaces'
  below : ReflTransGen spaces.HasChild root ptr
  called : spaces.Called space root ptr
  fresh : ptr ∉ gone

/-- What is visited below a child is not the node itself. -/
theorem Ready.not_mem_of_visits (h : spaces.Ready space root ptr gone spaces')
    (hdeletable : spaces.Deletable space root) (hchild : spaces.HasChild ptr c)
    {gone' : List NodePtr} (hvisits : Visits (spaces.calls space) [c] gone gone') :
    ptr ∉ gone' := by
  intro hmem
  rcases hvisits.leadsTo ptr hmem with hmem | ⟨b, hb, hbptr⟩
  · exact h.fresh hmem
  · cases List.mem_singleton.mp hb
    have hback := hdeletable.hasChild_of_calls (h.below.tail hchild) hbptr
    exact hdeletable.cycle ⟨ptr, h.below, TransGen.head' hchild hback⟩

/-- A call for the node returns, wherever it is made. -/
def Returns (spaces : AddressSpaces A) (space : SpaceId) (root ptr : NodePtr) : Prop :=
  ∀ gone s id, spaces.Ready space root ptr gone s → spaces.heap.idOf ptr = some id →
    spaces.nodeMap (space, id) = some ptr →
    (∀ t before, Turn (spaces.calls space) [ptr] gone t before →
      spaces.TypesOutlive space root t before) →
    Converges (deleteNode · s (space, id))

/-- **The loop over the children** ends when the calls for them do. -/
theorem Ready.deleteChildren (hinv : spaces.Inv spaces.heap.edgeSet) (hnamed : spaces.Named)
    (hdeletable : spaces.Deletable space root)
    (hreturns : ∀ child, spaces.HasChild ptr child → spaces.Returns space root child)
    (halive : spaces.heap.Alive ptr) (hchildren : spaces.children ptr = before ++ after)
    (hbefore : before ⊆ gone) (h : spaces.Ready space root ptr gone spaces')
    (hturns : ∀ t before, Turn (spaces.calls space) after gone t before →
      spaces.TypesOutlive space root t before) :
    ∃ fuel spaces'' gone',
      AddressSpaces.deleteChildren (deleteNode fuel) space ptr fuel spaces' = some spaces'' ∧
      Visits (spaces.calls space) after gone gone' ∧
      spaces.Ready space root ptr gone' spaces'' := by
  induction after generalizing before gone spaces' with
  | nil =>
      obtain ⟨node, hnode⟩ := NodeHeap.alive_iff.mp halive
      obtain ⟨node', hnode', -⟩ := h.state.left.exists_node h.fresh hnode
      have htold := h.state.told_left hinv h.called hnode' (hdeletable.told ptr h.below)
      have hnone := h.state.children_eq_after hinv h.called h.fresh halive hchildren hbefore
      exact ⟨1, spaces', gone, deleteChildren_of_nil hnode' htold hnone, .nil, h⟩
  | cons c after ih =>
      have hsplit : spaces.children ptr = (before ++ [c]) ++ after := by
        rw [hchildren, List.append_assoc]
        rfl
      by_cases hc : c ∈ gone
      · obtain ⟨fuel, s, gone', hs, hvisits, hready⟩ := ih hsplit
          (append_subset_of_mem hbefore hc) h fun t before hturn => hturns t before (.skip hc hturn)
        exact ⟨fuel, s, gone', hs, .skip hc hvisits, hready⟩
      have hchild : spaces.HasChild ptr c := by
        rw [HasChild, hchildren]
        exact List.mem_append_right _ List.mem_cons_self
      have hfound := hdeletable.found c (h.below.tail hchild)
      obtain ⟨id, hid, hplace⟩ := Option.bind_eq_some_iff.mp hfound
      have hcalled : spaces.Called space root c := h.called.tail (.inr hchild)
      have hturns' : ∀ t before, Turn (spaces.calls space) [c] gone t before →
          spaces.TypesOutlive space root t before :=
        fun t before hturn => hturns t before hturn.of_single
      obtain ⟨fuel, s, hcall⟩ := hreturns c hchild gone spaces' id
        ⟨h.state, h.below.tail hchild, hcalled, hc⟩ hid hplace hturns'
      rcases (deletes_deleteNode hinv hnamed fuel).visits gone spaces' s c id h.state hcalled hc hid
        hplace hturns' hcall with ⟨gone₁, hvisits, hgone₁⟩ | hdangles
      case inr => exact absurd hdangles hdeletable.not_dangles
      have hfresh := h.not_mem_of_visits hdeletable hchild hvisits
      have hmem := hvisits.todo_subset List.mem_cons_self
      have hsub := hvisits.subset
      obtain ⟨below, hbelow, rfl⟩ := hvisits.of_single hc
      obtain ⟨fuel', s', gone', hs', hvisits', hready'⟩ := ih hsplit
        (append_subset_of_mem (fun b hb => hsub (hbefore hb)) hmem)
        ⟨hgone₁, h.below, h.called, hfresh⟩
        fun t before hturn => hturns t before (.after hc hbelow hturn)
      refine ⟨max fuel fuel' + 1, s', gone', ?_, .visit hc hbelow hvisits', hready'⟩
      obtain ⟨node, hnode⟩ := NodeHeap.alive_iff.mp halive
      obtain ⟨node', hnode', -⟩ := h.state.left.exists_node h.fresh hnode
      have htold := h.state.told_left hinv h.called hnode' (hdeletable.told ptr h.below)
      have hfirst := h.state.children_eq_cons hinv h.called h.fresh halive hchildren hbefore hc
      have hcall' := steady_deleteNode spaces' (space, id) fuel s (max fuel fuel' + 1) hcall
        ((le_max_left fuel fuel').trans (Nat.le_succ _))
      have hid' := (h.state.left.idOf c hc).trans hid
      refine deleteChildren_of_cons hnode' htold hfirst hid' hcall' ?_
      exact deleteChildren_mono (fun s place s' hs => steady_deleteNode s place fuel' s' _ hs
        ((le_max_right fuel fuel').trans (Nat.le_succ _))) hs' (le_max_right fuel fuel')

/-- A call returns when those for the children do. -/
theorem returns_of_children (hinv : spaces.Inv spaces.heap.edgeSet) (hnamed : spaces.Named)
    (hdeletable : spaces.Deletable space root)
    (hreturns : ∀ child, spaces.HasChild ptr child → spaces.Returns space root child) :
    spaces.Returns space root ptr := by
  intro gone s id h hid hplace hturns
  have halive := hinv.placed _ ptr hplace
  have hcalls := hdeletable.calls_eq h.below
  obtain ⟨fuel, s₁, gone', hchildren, hvisits, hready⟩ := Ready.deleteChildren hinv hnamed
    hdeletable hreturns halive (List.nil_append _).symm (List.nil_subset _) h
    fun t before hturn => by
      rw [← hcalls] at hturn
      exact hturns t before (.child h.fresh hturn)
  rw [← hcalls] at hvisits
  have hturn := hready.state.atTurn hinv h.called (hturns ptr gone' (.here h.fresh hvisits))
  obtain ⟨rounds, s₂, hreferences⟩ := hturn.exists_deleteAllReferences hready.fresh halive
    hready.state.left remaining_cons_subset_remaining
    fun edge hedge => hdeletable.told ptr h.below edge hedge.1
  obtain ⟨hleft, -, -⟩ :=
    hturn.deleteAllReferences hready.state.left remaining_cons_subset_remaining hreferences
  have hplace₂ : s₂.nodeMap (space, id) = some ptr :=
    (hleft.nodeMap _ ptr).mpr ⟨hplace, hready.fresh⟩
  obtain ⟨s₃, hs₃⟩ := exists_eraseNode hleft.inv hplace₂ fun edge hedge =>
    not_touches_of_remaining hedge
  have hplace' := (h.state.left.nodeMap (space, id) ptr).mpr ⟨hplace, h.fresh⟩
  refine ⟨max fuel rounds + 1, s₃, ?_⟩
  dsimp only
  rw [deleteNode, hplace']
  refine Option.bind_eq_some_iff.mpr ⟨s₁, ?_, Option.bind_eq_some_iff.mpr ⟨s₂, ?_, ?_⟩⟩
  · exact deleteChildren_mono (fun s place s' hs => steady_deleteNode s place fuel s' _ hs
      (le_max_left _ _)) hchildren (le_max_left _ _)
  · exact steady_deleteAllReferences ptr s₁ rounds s₂ _ hreferences (le_max_right _ _)
  · exact check_bind_eq_some.mpr ⟨hplace₂, hs₃⟩

theorem finite_hasChild (hinv : spaces.Inv spaces.heap.edgeSet) :
    {ptr | ∃ child, spaces.HasChild ptr child}.Finite := by
  refine (Set.finite_lt_nat spaces.heap.next).subset ?_
  rintro ptr ⟨child, hchild⟩
  refine hinv.represents.bounded ptr ?_
  rw [HasChild, children] at hchild
  cases hnode : spaces.heap.nodes ptr with
  | none =>
      rw [hnode] at hchild
      cases hchild
  | some node => exact NodeHeap.alive_iff.mpr ⟨node, hnode⟩

/-- **A call for a node of a good subtree returns.** -/
theorem Deletable.returns (hdeletable : spaces.Deletable space root)
    (hinv : spaces.Inv spaces.heap.edgeSet) (hnamed : spaces.Named) :
    spaces.Returns space root root :=
  induction_of_no_cycle (finite_hasChild hinv)
    (fun _ hchildren => returns_of_children hinv hnamed hdeletable hchildren) hdeletable.cycle

end AddressSpaces

end ScadaCommon.AddressSpace
