import ScadaCommon.AddressSpace.CreateNodeAtomicity
import ScadaCommon.Model.NestedNodeIds

/-!
# Nested nodes

`GetMutableNestedNode` looks for a node under the whole id, and then takes the last name
off the id, looks for a node under the rest and for a child of that name. A rest that no
node is stored under is not taken apart further.

§1 the lookup · §2 what a nested id means · §3 what a text of the parent means · §4 children
of resolved nodes.
-/

namespace ScadaCommon.AddressSpace

open Foundation GenericNodeFactory

variable {V : Type}

/-! ## §1  The lookup -/

namespace GenericNodeFactory

variable (parse : Parsing) (factory : GenericNodeFactory) (spaces : Spaces V)

/-- Goes from name to name as long as there is such a child, over at most as many names
as the text has characters. -/
def walkNestedNames : ℕ → NodePtr → List Char → Option (NodePtr × List Char)
  | _, node, [] => some (node, [])
  | 0, _, _ :: _ => none
  | fuel + 1, node, c :: name => do
      let (nextNestedPart, rest) := (splitFirst '!' (c :: name)).getD (c :: name, [])
      let parent ← spaces.heap.nodes node
      match ← factory.findChild spaces.heap (String.ofList nextNestedPart)
          parent.forwardReferences with
      | none => return (node, c :: name)
      | some child => walkNestedNames fuel child rest

/-- `GetMutableNestedNode`: no node, or a node and the name that remains. Nothing is
returned when the process stops. -/
def getMutableNestedNode (nodeId : NodeId) : Option (Option (NodePtr × String)) :=
  match factory.getNode spaces nodeId with
  | some node => some (some (node, ""))
  | none =>
      let (parentId, nestedName) := (isNestedNodeId parse nodeId).getD (nodeId, "")
      match factory.getNode spaces parentId with
      | none => some none
      | some node =>
          (factory.walkNestedNames spaces nestedName.toList.length node nestedName.toList).map
            fun (node, rest) => some (node, String.ofList rest)

/-- No name remains. -/
def ResolvesTo (nodeId : NodeId) (ptr : NodePtr) : Prop :=
  factory.getMutableNestedNode parse spaces nodeId = some (some (ptr, ""))

/-- `GetChildren`, with the names of the children. -/
def namedChildren : List Reference → Option (List (NodePtr × String))
  | [] => some []
  | ref :: refs => do
      match ← spaces.heap.isSubtypeOf ref.type StandardId.hierarchicalReferences with
      | false => namedChildren refs
      | true =>
          let child ← spaces.heap.nodes ref.node
          let browseName ← factory.getBrowseName child
          return (ref.node, browseName.name) :: (← namedChildren refs)

/-- The node is a child of the parent with the name, and no other child has the name. -/
def IsOnlyChild (parent ptr : NodePtr) (name : String) : Prop :=
  ∃ parentNode children, spaces.heap.nodes parent = some parentNode ∧
    factory.namedChildren spaces parentNode.forwardReferences = some children ∧
      (ptr, name) ∈ children ∧ ∀ child ∈ children, child.2 = name → child.1 = ptr

/-- The first child with the name. -/
def HasChild (parent : NodePtr) (name : String) (ptr : NodePtr) : Prop :=
  ∃ parentNode, spaces.heap.nodes parent = some parentNode ∧
    factory.findChild spaces.heap name parentNode.forwardReferences = some (some ptr)

variable {parse factory spaces} {node ptr parent : NodePtr} {nodeId parentId nestedId : NodeId}
  {name : String}

/-- The only child with a name is found by the name. -/
theorem findChild_of_namedChildren {refs : List Reference} {children : List (NodePtr × String)}
    (hchildren : factory.namedChildren spaces refs = some children)
    (hmem : (ptr, name) ∈ children) (honly : ∀ child ∈ children, child.2 = name → child.1 = ptr) :
    factory.findChild spaces.heap name refs = some (some ptr) := by
  induction refs generalizing children with
  | nil =>
      cases hchildren
      cases hmem
  | cons ref refs ih =>
      obtain ⟨isChild, hisChild, hchildren⟩ := Option.bind_eq_some_iff.mp hchildren
      cases isChild with
      | false =>
          rw [findChild, hisChild]
          exact ih hchildren hmem honly
      | true =>
          obtain ⟨child, hchild, hchildren⟩ := Option.bind_eq_some_iff.mp hchildren
          obtain ⟨browseName, hbrowseName, hchildren⟩ := Option.bind_eq_some_iff.mp hchildren
          obtain ⟨rest, hrest, hchildren⟩ := Option.bind_eq_some_iff.mp hchildren
          cases hchildren
          obtain ⟨hfirst, honly⟩ := List.forall_mem_cons.mp honly
          by_cases hname : browseName.name = name
          · simp [findChild, hisChild, hchild, hbrowseName, hname, ← hfirst hname]
          · have hmem : (ptr, name) ∈ rest := by
              refine (List.mem_cons.mp hmem).resolve_left fun heq => hname ?_
              exact (congrArg Prod.snd heq).symm
            have hfound := ih hrest hmem honly
            simp [findChild, hisChild, hchild, hbrowseName, hname, hfound]

theorem IsOnlyChild.hasChild (h : factory.IsOnlyChild spaces parent ptr name) :
    factory.HasChild spaces parent name ptr := by
  obtain ⟨parentNode, children, hparent, hchildren, hmem, honly⟩ := h
  exact ⟨parentNode, hparent, findChild_of_namedChildren hchildren hmem honly⟩

/-! ## §2  What a nested id means -/

/-- One name is one step. -/
theorem walkNestedNames_eq {parentNode : Node (NodeData V)} (hseparator : '!' ∉ name.toList)
    (hname : name ≠ "") (hnode : spaces.heap.nodes node = some parentNode) :
    factory.walkNestedNames spaces name.toList.length node name.toList =
      (factory.findChild spaces.heap name parentNode.forwardReferences).map
        fun found => found.elim (node, name.toList) (·, []) := by
  cases htext : name.toList with
  | nil => exact absurd (String.toList_eq_nil_iff.mp htext) hname
  | cons c rest =>
      rw [htext] at hseparator
      have hwhole : String.ofList (c :: rest) = name := by
        rw [← htext, String.ofList_toList]
      have hsplit : (splitFirst '!' (c :: rest)).getD (c :: rest, []) = (c :: rest, []) := by
        rw [splitFirst_eq_none.mpr hseparator, Option.getD_none]
      simp only [List.length_cons, walkNestedNames, hsplit, hwhole, hnode]
      cases hfound : factory.findChild spaces.heap name parentNode.forwardReferences with
      | none => simp [hfound]
      | some found => cases found <;> simp [hfound]

theorem walkNestedNames_name (hseparator : '!' ∉ name.toList) (hname : name ≠ "") :
    factory.walkNestedNames spaces name.toList.length node name.toList = some (ptr, []) ↔
      factory.HasChild spaces node name ptr := by
  have hchars : name.toList ≠ [] := mt String.toList_eq_nil_iff.mp hname
  unfold HasChild
  cases hnode : spaces.heap.nodes node with
  | none =>
      refine iff_of_false (fun h => ?_) (by simp)
      cases htext : name.toList with
      | nil => exact hchars htext
      | cons c rest =>
          rw [htext] at h
          simp [walkNestedNames, hnode] at h
  | some parentNode =>
      rw [walkNestedNames_eq hseparator hname hnode, Option.map_eq_some_iff]
      constructor
      · rintro ⟨found, hfound, heq⟩
        cases found with
        | none => exact absurd (congrArg Prod.snd heq) hchars
        | some child =>
            cases heq
            exact ⟨parentNode, rfl, hfound⟩
      · rintro ⟨parentNode', heq, hfound⟩
        cases heq
        exact ⟨some ptr, hfound, rfl⟩

/-- **A node is found** under the id itself, or as a child of the node under the id that
one name was taken off. -/
theorem resolvesTo_iff : factory.ResolvesTo parse spaces nodeId ptr ↔
    factory.getNode spaces nodeId = some ptr ∨
      (factory.getNode spaces nodeId = none ∧ ∃ parentId name parent,
        isNestedNodeId parse nodeId = some (parentId, name) ∧
          factory.getNode spaces parentId = some parent ∧
            factory.HasChild spaces parent name ptr) := by
  unfold ResolvesTo getMutableNestedNode
  cases hnode : factory.getNode spaces nodeId with
  | some node => simp
  | none =>
      cases hnested : isNestedNodeId parse nodeId with
      | none => simp [hnode]
      | some nested =>
          obtain ⟨parentId, name⟩ := nested
          obtain ⟨hseparator, hname⟩ := isNestedNodeId_name hnested
          cases hparent : factory.getNode spaces parentId with
          | none => simp [hparent]
          | some parent =>
              have hstep : factory.walkNestedNames spaces name.toList.length parent name.toList =
                  some (ptr, []) ↔ factory.HasChild spaces parent name ptr :=
                walkNestedNames_name hseparator hname
              simp only [Option.getD_some, hparent, Option.map_eq_some_iff, Option.some_inj,
                reduceCtorEq, false_or, true_and, Prod.mk.injEq]
              constructor
              · rintro ⟨⟨found, rest⟩, hwalk, rfl, hrest⟩
                rw [show rest = [] by simpa using hrest] at hwalk
                exact ⟨parentId, name, parent, ⟨rfl, rfl⟩, hparent, hstep.mp hwalk⟩
              · rintro ⟨parentId', name', parent', ⟨rfl, rfl⟩, hparent', hchild⟩
                obtain rfl := Option.some.inj (hparent.symm.trans hparent')
                exact ⟨(ptr, []), hstep.mpr hchild, rfl, rfl⟩

/-! ## §3  What a text of the parent means -/

end GenericNodeFactory

/-- The id of the parent in the ids that are made for names under a node. -/
def readParent (parse : Parsing) : NodeId → Option NodeId
  | .numeric id namespaceIndex => parentOfText parse (Nat.toDigits 10 id) namespaceIndex
  | .string id namespaceIndex => parentOfText parse id.toList namespaceIndex
  | .null | .opaqueId _ _ => none

/-- The text of the id is taken for this id when a name is appended to it. -/
def ReadsBack : NodeId → Prop
  | .numeric _ _ => True
  | .string id namespaceIndex =>
      ':' ∉ id.toList ∧ ('!' ∈ id.toList ∨ ¬ (NodeId.string id namespaceIndex).LooksNumeric)
  | .null | .opaqueId _ _ => False

section

variable {parse : Parsing} {nodeId nestedId : NodeId} {name : String}

theorem append_separator (text name : String) :
    text ++ "!" ++ name = String.ofList (text.toList ++ '!' :: name.toList) := by
  rw [← String.toList_inj]
  simp

theorem isNestedNodeId_append {text : String} {namespaceIndex : ℕ}
    (hseparator : '!' ∉ name.toList) (hname : name ≠ "") (parentId : NodeId) (name' : String) :
    isNestedNodeId parse (.string (text ++ "!" ++ name) namespaceIndex) = some (parentId, name') ↔
      parentOfText parse text.toList namespaceIndex = some parentId ∧ name' = name := by
  rw [append_separator, isNestedNodeId_ofList hseparator hname, Option.map_eq_some_iff]
  constructor
  · rintro ⟨found, hparent, heq⟩
    cases heq
    exact ⟨hparent, rfl⟩
  · rintro ⟨hparent, rfl⟩
    exact ⟨parentId, hparent, rfl⟩

/-- A made id is taken apart into what the text of the parent means, and the name. -/
theorem isNestedNodeId_makeNestedNodeId (hseparator : '!' ∉ name.toList)
    (hnested : makeNestedNodeId nodeId name = some nestedId) (parentId : NodeId) (name' : String) :
    isNestedNodeId parse nestedId = some (parentId, name') ↔
      readParent parse nodeId = some parentId ∧ name' = name := by
  unfold makeNestedNodeId at hnested
  obtain ⟨hname, hnested⟩ := Option.ite_none_left_eq_some.mp hnested
  cases nodeId with
  | null => cases hnested
  | numeric id namespaceIndex =>
      cases hnested
      rw [isNestedNodeId_append hseparator hname, readParent, Nat.toString_eq_repr,
        Nat.toList_repr]
  | string id namespaceIndex =>
      cases hnested
      rw [isNestedNodeId_append hseparator hname, readParent]
  | opaqueId id namespaceIndex => cases hnested

theorem readParent_of_readsBack (hparse : parse.AcceptsNumerals)
    (hrepresentable : nodeId.Representable) (h : ReadsBack nodeId) :
    readParent parse nodeId = some nodeId := by
  cases nodeId with
  | null => cases h
  | numeric id namespaceIndex =>
      obtain ⟨hid, -, hzero⟩ := hrepresentable
      have hcolon : ':' ∉ Nat.toDigits 10 id := fun hmem =>
        absurd rfl (not_digit_of_eq rfl ((isNumeral_toDigits id).2 _ hmem))
      rw [readParent, parentOfText_of_notMem hcolon, nodeIdOfIdentifier_toDigits hparse hid,
        NodeId.ofNumeric, if_neg hzero]
  | string id namespaceIndex =>
      obtain ⟨hcolon, hlooks⟩ := h
      rw [readParent, parentOfText_of_notMem hcolon]
      refine congrArg some ?_
      rcases hlooks with hseparator | hlooks
      · rw [nodeIdOfIdentifier, if_pos hseparator, String.ofList_toList]
      · exact (nodeIdOfIdentifier_eq_string_iff hparse).mpr hlooks
  | opaqueId id namespaceIndex => cases h

theorem exists_makeNestedNodeId_of_readsBack (h : ReadsBack nodeId) (hname : name ≠ "") :
    ∃ nestedId, makeNestedNodeId nodeId name = some nestedId := by
  unfold makeNestedNodeId
  rw [if_neg hname]
  cases nodeId with
  | null => cases h
  | numeric id namespaceIndex => exact ⟨_, rfl⟩
  | string id namespaceIndex => exact ⟨_, rfl⟩
  | opaqueId id namespaceIndex => cases h

end

/-! ## §4  Children of resolved nodes -/

namespace GenericNodeFactory

/-- The id that is made for the name under `nodeId` resolves to `child`. -/
def NestedResolvesTo (parse : Parsing) (factory : GenericNodeFactory) (spaces : Spaces V)
    (nodeId : NodeId) (name : String) (child : NodePtr) : Prop :=
  ∃ nestedId, makeNestedNodeId nodeId name = some nestedId ∧
    factory.ResolvesTo parse spaces nestedId child

variable {parse : Parsing} {factory : GenericNodeFactory} {spaces : Spaces V} {ptr : NodePtr}
  {nodeId : NodeId} {name : String}

/-- **The id of a child** is resolved exactly if the child is stored under it, or if the
text of the parent's id means the id of a stored node with that child. For ids that a
text means again that is if the parent is itself stored under its id. -/
theorem nestedResolvesTo_iff {child : NodePtr} (hparse : parse.AcceptsNumerals)
    (hrepresentable : nodeId.Representable) (hresolves : factory.ResolvesTo parse spaces nodeId ptr)
    (hchild : factory.IsOnlyChild spaces ptr child name) (hseparator : '!' ∉ name.toList)
    (hname : name ≠ "")
    (hstored : ∀ nestedId, makeNestedNodeId nodeId name = some nestedId →
      ∀ other, factory.getNode spaces nestedId = some other → other = child) :
    (factory.NestedResolvesTo parse spaces nodeId name child ↔
      ∃ nestedId, makeNestedNodeId nodeId name = some nestedId ∧
        (factory.getNode spaces nestedId = some child ∨
          ∃ parentId parent, readParent parse nodeId = some parentId ∧
            factory.getNode spaces parentId = some parent ∧
              factory.HasChild spaces parent name child)) ∧
    (ReadsBack nodeId →
      (factory.NestedResolvesTo parse spaces nodeId name child ↔
        (∃ nestedId, makeNestedNodeId nodeId name = some nestedId ∧
          factory.getNode spaces nestedId = some child) ∨
        factory.getNode spaces nodeId = some ptr)) := by
  have hall : factory.NestedResolvesTo parse spaces nodeId name child ↔
      ∃ nestedId, makeNestedNodeId nodeId name = some nestedId ∧
        (factory.getNode spaces nestedId = some child ∨
          ∃ parentId parent, readParent parse nodeId = some parentId ∧
            factory.getNode spaces parentId = some parent ∧
              factory.HasChild spaces parent name child) := by
    refine exists_congr fun nestedId => and_congr_right fun hnested => ?_
    have htaken : ∀ parentId name', isNestedNodeId parse nestedId = some (parentId, name') ↔
        readParent parse nodeId = some parentId ∧ name' = name :=
      isNestedNodeId_makeNestedNodeId hseparator hnested
    rw [resolvesTo_iff]
    refine or_congr_right' fun hother => ?_
    have hnone : factory.getNode spaces nestedId = none := by
      rw [Option.eq_none_iff_forall_ne_some]
      intro other hnode
      exact hother (hnode.trans (congrArg some (hstored nestedId hnested other hnode)))
    constructor
    · rintro ⟨-, parentId, name', parent, hparentId, hparent, hfound⟩
      obtain ⟨hread, rfl⟩ := (htaken parentId name').mp hparentId
      exact ⟨parentId, parent, hread, hparent, hfound⟩
    · rintro ⟨parentId, parent, hread, hparent, hfound⟩
      exact ⟨hnone, parentId, name, parent, (htaken parentId name).mpr ⟨hread, rfl⟩, hparent, hfound⟩
  refine ⟨hall, fun hreads => hall.trans ?_⟩
  have hread := readParent_of_readsBack hparse hrepresentable hreads
  obtain ⟨nestedId, hnested⟩ := exists_makeNestedNodeId_of_readsBack hreads hname
  simp only [hread, hnested, Option.some_inj, exists_eq_left']
  refine or_congr_right ?_
  constructor
  · rintro ⟨_, parent, rfl, hparent, -⟩
    rcases resolvesTo_iff.mp hresolves with hnode | ⟨hnone, -⟩
    · exact hnode
    · rw [hnone] at hparent
      cases hparent
  · exact fun hnode => ⟨nodeId, ptr, rfl, hnode, hchild.hasChild⟩

/-- A pump with a motor that has a sensor, each stored under an id of its own. -/
def pumpSpaces : Spaces ℕ :=
  spacesOf [
    { id := StandardId.hierarchicalReferences, nodeClass := .referenceType,
      attributes := { value := 0 }, forwardReferences := [⟨2, 1⟩] },
    { id := StandardId.organizes, nodeClass := .referenceType, attributes := { value := 0 },
      inverseReferences := [⟨2, 0⟩], supertype := some 0 },
    { id := StandardId.hasSubtype, nodeClass := .referenceType, attributes := { value := 0 } },
    { id := .numeric 1 7, nodeClass := .object,
      attributes := { browseName := ⟨"Pump", 7⟩, value := 0 }, forwardReferences := [⟨1, 4⟩] },
    { id := .numeric 2 7, nodeClass := .object,
      attributes := { browseName := ⟨"Motor", 7⟩, value := 0 }, forwardReferences := [⟨1, 5⟩],
      inverseReferences := [⟨1, 3⟩] },
    { id := .numeric 3 7, nodeClass := .object,
      attributes := { browseName := ⟨"Sensor", 7⟩, value := 0 },
      inverseReferences := [⟨1, 4⟩] }]

def pumpFactory : GenericNodeFactory where
  space := 0
  parents := []
  createProperties := true
  nodeIdToScadaString := ScadaCommon.nodeIdToScadaString

theorem isOnlyChild_motor : pumpFactory.IsOnlyChild pumpSpaces 3 4 "Motor" :=
  ⟨_, [(4, "Motor")], rfl, by decide, by decide, by decide⟩

theorem isOnlyChild_sensor : pumpFactory.IsOnlyChild pumpSpaces 4 5 "Sensor" :=
  ⟨_, [(5, "Sensor")], rfl, by decide, by decide, by decide⟩

theorem nestedResolvesTo_iff_motor :
    pumpFactory.NestedResolvesTo .decimal pumpSpaces (.numeric 1 7) "Motor" 4 := by
  have hrepresentable : (NodeId.numeric 1 7).Representable := by
    refine ⟨?_, ?_, ?_⟩ <;> decide
  have hresolves : pumpFactory.ResolvesTo .decimal pumpSpaces (.numeric 1 7) 3 := by
    show _ = _
    decide
  have hstored : ∀ nestedId, makeNestedNodeId (.numeric 1 7) "Motor" = some nestedId →
      ∀ other, pumpFactory.getNode pumpSpaces nestedId = some other → other = 4 := by
    intro nestedId hnested other hother
    have hnone : pumpFactory.getNode pumpSpaces (.string "1!Motor" 7) = none := by
      decide
    cases hnested
    cases hnone.symm.trans hother
  refine ((nestedResolvesTo_iff Parsing.decimal_acceptsNumerals hrepresentable hresolves
    isOnlyChild_motor (by decide) (by decide) hstored).2 trivial).mpr (.inr ?_)
  decide

/-- The motor is found by a nested id, its sensor by none. -/
theorem sensor_of_nested_motor_is_lost :
    pumpFactory.ResolvesTo .decimal pumpSpaces (.string "1!Motor" 7) 4 ∧
      pumpFactory.IsOnlyChild pumpSpaces 4 5 "Sensor" ∧
      makeNestedNodeId (.string "1!Motor" 7) "Sensor" = some (.string "1!Motor!Sensor" 7) ∧
      pumpFactory.getMutableNestedNode .decimal pumpSpaces (.string "1!Motor!Sensor" 7) =
        some none ∧
      ¬ pumpFactory.NestedResolvesTo .decimal pumpSpaces (.string "1!Motor" 7) "Sensor" 5 := by
  have hnested : makeNestedNodeId (.string "1!Motor" 7) "Sensor" =
      some (.string "1!Motor!Sensor" 7) := by
    decide
  have hnone : pumpFactory.getMutableNestedNode .decimal pumpSpaces
      (.string "1!Motor!Sensor" 7) = some none := by
    decide
  have hmotor : pumpFactory.ResolvesTo .decimal pumpSpaces (.string "1!Motor" 7) 4 := by
    show _ = _
    decide
  refine ⟨hmotor, isOnlyChild_sensor, hnested, hnone, ?_⟩
  rintro ⟨nestedId, hnested', hresolves⟩
  obtain rfl := Option.some.inj (hnested.symm.trans hnested')
  cases hnone.symm.trans hresolves

end GenericNodeFactory

end ScadaCommon.AddressSpace
