import ScadaCommon.Foundation.Paths
import ScadaCommon.AddressSpace.GenericNodeFactory
import ScadaCommon.AddressSpace.NodeGraph

/-!
# What types declare

The factory reads the declarations of a type while it adds nodes. Nodes that are
added and references to them change no more of the earlier nodes than their
inverse references, which it does not read.

§1 heaps that grow · §2 what is read of them · §3 declarations.
-/

namespace ScadaCommon.AddressSpace

open Foundation

/-! ## §1  Heaps that grow -/

/-- A node but for its inverse references. -/
def Node.outline {A : Type} (node : Node A) : Node A :=
  { node with inverseReferences := [] }

theorem Node.forwardReferences_eq_of_outline {A : Type} {node node' : Node A}
    (h : node'.outline = node.outline) : node'.forwardReferences = node.forwardReferences := by
  have heq := congrArg Node.forwardReferences h
  exact heq

theorem Node.supertype_eq_of_outline {A : Type} {node node' : Node A}
    (h : node'.outline = node.outline) : node'.supertype = node.supertype := by
  have heq := congrArg Node.supertype h
  exact heq

theorem Node.nodeClass_eq_of_outline {A : Type} {node node' : Node A}
    (h : node'.outline = node.outline) : node'.nodeClass = node.nodeClass := by
  have heq := congrArg Node.nodeClass h
  exact heq

theorem Node.typeDefinition_eq_of_outline {A : Type} {node node' : Node A}
    (h : node'.outline = node.outline) : node'.typeDefinition = node.typeDefinition := by
  have heq := congrArg Node.typeDefinition h
  exact heq

namespace NodeHeap

section

variable {A : Type} {heap heap' heap'' : NodeHeap A}

def outline (heap : NodeHeap A) (ptr : NodePtr) : Option (Node A) :=
  (heap.nodes ptr).map Node.outline

/-- Of the nodes of the first heap only inverse references differ. -/
structure Agrees (heap heap' : NodeHeap A) : Prop where
  next : heap.next ≤ heap'.next
  outline : ∀ ptr < heap.next, heap'.outline ptr = heap.outline ptr

theorem Agrees.trans (h : Agrees heap heap') (h' : Agrees heap' heap'') : Agrees heap heap'' where
  next := h.next.trans h'.next
  outline ptr hptr := (h'.outline ptr (hptr.trans_le h.next)).trans (h.outline ptr hptr)

/-- What a node has in the one heap it has in the other. -/
theorem Agrees.nodes (h : Agrees heap heap') {ptr : NodePtr} (hptr : ptr < heap.next)
    {node' : Node A} (hnode' : heap'.nodes ptr = some node') :
    ∃ node, heap.nodes ptr = some node ∧ node'.outline = node.outline := by
  have houtline := h.outline ptr hptr
  rw [NodeHeap.outline, NodeHeap.outline, hnode', Option.map_some, eq_comm,
    Option.map_eq_some_iff] at houtline
  obtain ⟨node, hnode, heq⟩ := houtline
  exact ⟨node, hnode, heq.symm⟩

/-- A reader of outlines reads the same. -/
theorem Agrees.read (h : Agrees heap heap') {ptr : NodePtr} (hptr : ptr < heap.next) {B : Type}
    (f : Node A → B) (hf : ∀ node, f node.outline = f node) :
    (heap'.nodes ptr).map f = (heap.nodes ptr).map f := by
  have houtline := congrArg (Option.map f) (h.outline ptr hptr)
  rw [NodeHeap.outline, NodeHeap.outline, Option.map_map, Option.map_map] at houtline
  have hcomp : f ∘ Node.outline = f := funext hf
  rwa [hcomp] at houtline

theorem Agrees.bind (h : Agrees heap heap') {ptr : NodePtr} (hptr : ptr < heap.next) {B : Type}
    (f : Node A → Option B) (hf : ∀ node, f node.outline = f node) :
    (heap'.nodes ptr).bind f = (heap.nodes ptr).bind f := by
  have hread := congrArg (·.bind id) (h.read hptr f hf)
  simpa [Option.bind_map] using hread

theorem Agrees.classOf (h : Agrees heap heap') {ptr : NodePtr} (hptr : ptr < heap.next) :
    heap'.classOf ptr = heap.classOf ptr :=
  h.read hptr Node.nodeClass fun _ => rfl

theorem Agrees.idOf (h : Agrees heap heap') {ptr : NodePtr} (hptr : ptr < heap.next) :
    heap'.idOf ptr = heap.idOf ptr :=
  h.read hptr Node.id fun _ => rfl

/-- One node more. -/
theorem agrees_allocate (heap : NodeHeap A) (node : Node A) :
    Agrees heap (heap.allocate node).1 where
  next := Nat.le_succ _
  outline ptr hptr := by simp [NodeHeap.outline, allocate, hptr.ne]

end

/-! ## §2  What is read of them -/

/-- The walk along the supertypes, one step of it. -/
def supertypeStep {A : Type} (heap : NodeHeap A) (typeId : NodeId) (ptr : NodePtr) :
    Option (Option NodePtr) :=
  (heap.nodes ptr).map fun node => if node.id = typeId then none else node.supertype

theorem isSubtypeOfWalk_eq {A : Type} {heap : NodeHeap A} (typeId : NodeId) {fuel : ℕ}
    (ptr : NodePtr) : heap.isSubtypeOfWalk typeId fuel ptr =
      (path (heap.supertypeStep typeId) fuel ptr).map (·.any (heap.idOf · = some typeId)) := by
  induction fuel generalizing ptr with
  | zero => rfl
  | succ fuel ih =>
      rw [isSubtypeOfWalk, path, supertypeStep]
      cases hnode : heap.nodes ptr with
      | none => rfl
      | some node =>
          have hid : heap.idOf ptr = some node.id := by rw [NodeHeap.idOf, hnode, Option.map_some]
          by_cases htype : node.id = typeId
          · simp [htype, hid]
          · cases hsuper : node.supertype with
            | none => simp [htype, hsuper, hid]
            | some supertype =>
                simp [htype, hsuper, hid, ih, Function.comp_def]

end NodeHeap

variable {V : Type} {heap heap' : NodeHeap (NodeData V)}

namespace NodeHeap

/-- Nodes point at nodes that were allocated. -/
structure Bounded (heap : NodeHeap (NodeData V)) : Prop where
  allocated : ∀ ptr node, heap.nodes ptr = some node → ptr < heap.next
  supertype : ∀ ptr node, heap.nodes ptr = some node → ∀ other, node.supertype = some other →
    other < heap.next
  references : ∀ ptr node, heap.nodes ptr = some node → ∀ ref ∈ node.forwardReferences,
    ref.type < heap.next ∧ ref.node < heap.next
  dataType : ∀ ptr node, heap.nodes ptr = some node → ∀ other,
    node.attributes.dataType = some other → other < heap.next

theorem Bounded.staysIn (hbounded : heap.Bounded) (typeId : NodeId) :
    StaysIn (heap.supertypeStep typeId) {q | q < heap.next} := by
  intro q hq other hother
  obtain ⟨node, hnode, hother⟩ := Option.map_eq_some_iff.mp hother
  split at hother
  · cases hother
  · exact hbounded.supertype q node hnode other hother

/-- The walk along the supertypes returns exactly if they end. -/
theorem Bounded.isSubtypeOf_returns (hbounded : heap.Bounded) {ptr : NodePtr}
    (hptr : ptr < heap.next) (typeId : NodeId) :
    (∃ isSubtype, heap.isSubtypeOf ptr typeId = some isSubtype) ↔
      Ends (heap.supertypeStep typeId) ptr := by
  simp only [NodeHeap.isSubtypeOf, isSubtypeOfWalk_eq, Option.map_eq_some_iff]
  constructor
  · rintro ⟨isSubtype, ptrs, hptrs, -⟩
    exact ⟨_, ptrs, hptrs⟩
  · rintro ⟨fuel, ptrs, hptrs⟩
    have hmore := path_mono hptrs (Nat.le_max_left fuel (heap.next + 1))
    rw [path_stable (hbounded.staysIn typeId) hptr (by omega)] at hmore
    exact ⟨_, ptrs, path_mono hmore (Nat.le_succ _), rfl⟩

theorem Agrees.isSubtypeOf (h : heap.Agrees heap') (hbounded : heap.Bounded) {ptr : NodePtr}
    (hptr : ptr < heap.next) (typeId : NodeId) :
    heap'.isSubtypeOf ptr typeId = heap.isSubtypeOf ptr typeId := by
  have hstays := hbounded.staysIn typeId
  have hagree : ∀ q ∈ {q | q < heap.next},
      heap'.supertypeStep typeId q = heap.supertypeStep typeId q :=
    fun q hq => h.read hq _ fun _ => rfl
  have hpath : path (heap'.supertypeStep typeId) (heap'.next + 1) ptr =
      path (heap.supertypeStep typeId) (heap.next + 1) ptr := by
    rw [path_congr hstays hagree hptr, path_stable hstays hptr (h.next.trans (Nat.le_succ _)),
      path_stable hstays hptr (Nat.le_succ _)]
  rw [NodeHeap.isSubtypeOf, NodeHeap.isSubtypeOf, isSubtypeOfWalk_eq, isSubtypeOfWalk_eq, hpath]
  cases hptrs : path (heap.supertypeStep typeId) (heap.next + 1) ptr with
  | none => rfl
  | some ptrs =>
      rw [Option.map_some, Option.map_some, Option.some_inj, Bool.eq_iff_iff, List.any_eq_true,
        List.any_eq_true]
      refine exists_congr fun q => and_congr_right fun hq => ?_
      rw [h.idOf (path_subset hstays hptr hptrs q hq)]

end NodeHeap

/-- References to nodes that were allocated. -/
def NodeHeap.BoundedReferences (heap : NodeHeap (NodeData V)) (refs : List Reference) : Prop :=
  ∀ ref ∈ refs, ref.type < heap.next ∧ ref.node < heap.next

theorem NodeHeap.findFirst_mem {A : Type} {heap : NodeHeap A} {typeId : NodeId}
    {refs : List Reference} {ref : Reference} (h : heap.findFirst typeId refs = some (some ref)) :
    ref ∈ refs := by
  induction refs with
  | nil => cases h
  | cons first refs ih =>
      obtain ⟨isSubtype, -, h⟩ := Option.bind_eq_some_iff.mp h
      cases isSubtype with
      | true =>
          cases h
          exact List.mem_cons_self
      | false => exact List.mem_cons_of_mem _ (ih h)

/-- The declaration of a reference is read off its node. -/
theorem GenericNodeFactory.declaredProperty_eq (factory : GenericNodeFactory)
    (heap : NodeHeap (NodeData V)) (ref : Reference) : factory.declaredProperty heap ref =
      (heap.isSubtypeOf ref.type StandardId.hasProperty).bind fun isProperty =>
        if isProperty = true then
          (heap.nodes ref.node).bind fun node =>
            if node.nodeClass = .variable then factory.declarationOf heap node else some none
        else some none := by
  rw [GenericNodeFactory.declaredProperty, getProperty]
  cases heap.isSubtypeOf ref.type StandardId.hasProperty with
  | none => rfl
  | some isProperty =>
      cases isProperty with
      | false => rfl
      | true =>
          cases heap.nodes ref.node with
          | none => rfl
          | some node => by_cases hclass : node.nodeClass = .variable <;> simp [hclass]

section

variable (h : heap.Agrees heap') (hbounded : heap.Bounded)

include h hbounded

theorem NodeHeap.Agrees.findFirst (typeId : NodeId) {refs : List Reference}
    (hrefs : heap.BoundedReferences refs) :
    heap'.findFirst typeId refs = heap.findFirst typeId refs := by
  induction refs with
  | nil => rfl
  | cons ref refs ih =>
      obtain ⟨href, hrefs⟩ := List.forall_mem_cons.mp hrefs
      rw [NodeHeap.findFirst, NodeHeap.findFirst, h.isSubtypeOf hbounded href.1, ih hrefs]

theorem NodeHeap.Agrees.isPlaceholderDeclaration {node : Node (NodeData V)}
    (hrefs : heap.BoundedReferences node.forwardReferences) :
    isPlaceholderDeclaration heap' node = isPlaceholderDeclaration heap node := by
  rw [AddressSpace.isPlaceholderDeclaration, AddressSpace.isPlaceholderDeclaration,
    h.findFirst hbounded _ hrefs]
  refine Option.bind_congr fun _ _ => Option.bind_congr fun found hfound => ?_
  cases found with
  | none => rfl
  | some ref => exact h.bind (hrefs ref (NodeHeap.findFirst_mem hfound)).2 _ fun _ => rfl

theorem NodeHeap.Agrees.findChild (factory : GenericNodeFactory) (name : String)
    {refs : List Reference} (hrefs : heap.BoundedReferences refs) :
    factory.findChild heap' name refs = factory.findChild heap name refs := by
  induction refs with
  | nil => rfl
  | cons ref refs ih =>
      obtain ⟨href, hrefs⟩ := List.forall_mem_cons.mp hrefs
      rw [GenericNodeFactory.findChild, GenericNodeFactory.findChild,
        h.isSubtypeOf hbounded href.1, ih hrefs]
      refine Option.bind_congr fun isChild _ => ?_
      cases isChild with
      | false => rfl
      | true => exact h.bind href.2 _ fun _ => rfl

theorem NodeHeap.Agrees.declarationOf (factory : GenericNodeFactory) {ptr : NodePtr}
    {node : Node (NodeData V)} (hnode : heap.nodes ptr = some node) :
    factory.declarationOf heap' node = factory.declarationOf heap node := by
  have hrefs : heap.BoundedReferences node.forwardReferences := hbounded.references ptr node hnode
  rw [GenericNodeFactory.declarationOf, GenericNodeFactory.declarationOf,
    h.isPlaceholderDeclaration hbounded hrefs]
  refine Option.bind_congr fun isPlaceholder _ => ?_
  cases isPlaceholder with
  | true => rfl
  | false =>
      refine Option.bind_congr fun browseName _ => ?_
      rw [h.findChild hbounded factory browseName.name hrefs]
      refine Option.bind_congr fun child _ => ?_
      cases child with
      | some child => rfl
      | none =>
          refine Option.bind_congr fun displayName _ => ?_
          refine Option.bind_congr fun dataType hdataType => ?_
          exact h.bind (hbounded.dataType ptr node hnode dataType hdataType) _ fun _ => rfl

/-- References of earlier nodes declare what they did. -/
theorem NodeHeap.Agrees.declaredProperty (factory : GenericNodeFactory) {ref : Reference}
    (href : ref.type < heap.next ∧ ref.node < heap.next) :
    factory.declaredProperty heap' ref = factory.declaredProperty heap ref := by
  rw [factory.declaredProperty_eq, factory.declaredProperty_eq, h.isSubtypeOf hbounded href.1]
  refine Option.bind_congr fun isProperty _ => ?_
  split
  · rw [h.bind href.2 _ fun _ => rfl]
    refine Option.bind_congr fun node hnode => ?_
    rw [h.declarationOf hbounded factory hnode]
  · rfl

end

/-! ## §3  Declarations -/

namespace GenericNodeFactory

variable (factory : GenericNodeFactory)

/-- What the references of one type declare. -/
def declarationsOf (heap : NodeHeap (NodeData V)) :
    List Reference → Option (List (PropertyDeclaration V))
  | [] => some []
  | ref :: refs => do
      let declaration ← factory.declaredProperty heap ref
      return declaration.toList ++ (← declarationsOf heap refs)

/-- What a type and its supertypes declare, at most `fuel` of them. -/
def declarations (heap : NodeHeap (NodeData V)) :
    ℕ → NodePtr → Option (List (PropertyDeclaration V))
  | 0, _ => none
  | fuel + 1, type => do
      let typeNode ← heap.nodes type
      let own ← factory.declarationsOf heap typeNode.forwardReferences
      match typeNode.supertype with
      | none => return own
      | some supertype => return own ++ (← declarations heap fuel supertype)

/-- The type and its supertypes, which end, declare these. -/
def Declares (heap : NodeHeap (NodeData V)) (type : NodePtr)
    (declared : List (PropertyDeclaration V)) : Prop :=
  ∃ fuel, factory.declarations heap fuel type = some declared

variable {factory}

theorem declares_iff {type : NodePtr} {declared : List (PropertyDeclaration V)} :
    factory.Declares heap type declared ↔
      ∃ typeNode own, heap.nodes type = some typeNode ∧
        factory.declarationsOf heap typeNode.forwardReferences = some own ∧
          match typeNode.supertype with
          | none => declared = own
          | some supertype => ∃ inherited, factory.Declares heap supertype inherited ∧
              declared = own ++ inherited := by
  constructor
  · rintro ⟨fuel, h⟩
    cases fuel with
    | zero => cases h
    | succ fuel =>
        obtain ⟨typeNode, htype, h⟩ := Option.bind_eq_some_iff.mp h
        obtain ⟨own, hown, h⟩ := Option.bind_eq_some_iff.mp h
        refine ⟨typeNode, own, htype, hown, ?_⟩
        cases hsuper : typeNode.supertype with
        | none =>
            rw [hsuper] at h
            exact (Option.some.inj h).symm
        | some supertype =>
            rw [hsuper] at h
            obtain ⟨inherited, hinherited, h⟩ := Option.bind_eq_some_iff.mp h
            exact ⟨inherited, ⟨fuel, hinherited⟩, (Option.some.inj h).symm⟩
  · rintro ⟨typeNode, own, htype, hown, h⟩
    cases hsuper : typeNode.supertype with
    | none =>
        rw [hsuper] at h
        refine ⟨1, ?_⟩
        simp [declarations, htype, hown, hsuper, h]
    | some supertype =>
        rw [hsuper] at h
        obtain ⟨inherited, ⟨fuel, hinherited⟩, rfl⟩ := h
        refine ⟨fuel + 1, ?_⟩
        simp [declarations, htype, hown, hsuper, hinherited]

theorem declares_unique {type : NodePtr} {declared declared' : List (PropertyDeclaration V)}
    (h : factory.Declares heap type declared) (h' : factory.Declares heap type declared') :
    declared = declared' := by
  obtain ⟨fuel, h⟩ := h
  induction fuel generalizing type declared declared' with
  | zero => cases h
  | succ fuel ih =>
      obtain ⟨typeNode, htype, h⟩ := Option.bind_eq_some_iff.mp h
      obtain ⟨own, hown, h⟩ := Option.bind_eq_some_iff.mp h
      obtain ⟨typeNode', own', htype', hown', h'⟩ := declares_iff.mp h'
      obtain rfl := Option.some.inj (htype.symm.trans htype')
      obtain rfl := Option.some.inj (hown.symm.trans hown')
      cases hsuper : typeNode.supertype with
      | none =>
          rw [hsuper] at h h'
          exact (Option.some.inj h).symm.trans h'.symm
      | some supertype =>
          rw [hsuper] at h h'
          obtain ⟨inherited, hinherited, h⟩ := Option.bind_eq_some_iff.mp h
          obtain ⟨inherited', hinherited', rfl⟩ := h'
          rw [← ih hinherited' hinherited]
          exact (Option.some.inj h).symm

theorem agrees_declarationsOf (h : heap.Agrees heap') (hbounded : heap.Bounded)
    {refs : List Reference} (hrefs : heap.BoundedReferences refs) :
    factory.declarationsOf heap' refs = factory.declarationsOf heap refs := by
  induction refs with
  | nil => rfl
  | cons ref refs ih =>
      obtain ⟨href, hrefs⟩ := List.forall_mem_cons.mp hrefs
      rw [declarationsOf, declarationsOf, h.declaredProperty hbounded factory href, ih hrefs]

theorem agrees_declarations (h : heap.Agrees heap') (hbounded : heap.Bounded) {type : NodePtr}
    (htype : type < heap.next) (fuel : ℕ) :
    factory.declarations heap' fuel type = factory.declarations heap fuel type := by
  induction fuel generalizing type with
  | zero => rfl
  | succ fuel ih =>
      refine (h.bind htype _ fun _ => rfl).trans (Option.bind_congr fun typeNode hnode => ?_)
      rw [agrees_declarationsOf h hbounded (hbounded.references type typeNode hnode)]
      refine Option.bind_congr fun own _ => ?_
      cases hsuper : typeNode.supertype with
      | none => rfl
      | some supertype =>
          exact congrArg (Option.bind · _) (ih (hbounded.supertype type typeNode hnode _ hsuper))

/-- Types declare what they did. -/
theorem agrees_declares (h : heap.Agrees heap') (hbounded : heap.Bounded) {type : NodePtr}
    (htype : type < heap.next) {declared : List (PropertyDeclaration V)} :
    factory.Declares heap' type declared ↔ factory.Declares heap type declared :=
  exists_congr fun fuel => by rw [agrees_declarations h hbounded htype fuel]

end GenericNodeFactory

end ScadaCommon.AddressSpace
