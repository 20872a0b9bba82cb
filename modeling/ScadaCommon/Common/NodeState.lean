import ScadaCommon.Foundation.KeyedLists
import ScadaCommon.AddressSpace.GenericNodeFactory

/-!
# Editing and reading node states

The properties of a node state are a list that is searched by the id of the property, and
its references one that is searched by type and direction. A null value takes a property
away, and a null target a reference. Readers fill a record from the properties.

§1 properties · §2 references · §3 what edits come to · §4 reading a record.
-/

namespace ScadaCommon.AddressSpace

open Foundation

variable {V : Type} [Inhabited V] [DecidableEq V]

/-! ## §1  Properties -/

/-- `NodeProperty`; the default of `V` is the null variant. -/
abbrev NodeProperty (V : Type) := NodeId × V

namespace NodeProperties

/-- `FindProperty`. -/
def findProperty (properties : List (NodeProperty V)) (propDeclId : NodeId) : Option V :=
  (properties.find? (·.1 = propDeclId)).map (·.2)

def getProperty (properties : List (NodeProperty V)) (propDeclId : NodeId) : V :=
  (findProperty properties propDeclId).getD default

/-- `SetProperty`; nothing is returned for `false`. -/
def setProperty (properties : List (NodeProperty V)) (propDeclId : NodeId) (value : V) :
    Option (List (NodeProperty V)) :=
  (properties.findIdx? (·.1 = propDeclId)).map fun i => properties.set i (propDeclId, value)

def setOrAddOrDeleteProperty (properties : List (NodeProperty V)) (propDeclId : NodeId)
    (value : V) : List (NodeProperty V) :=
  match properties.findIdx? (·.1 = propDeclId) with
  | some i => if value = default then properties.eraseIdx i else properties.set i (propDeclId, value)
  | none => if value ≠ default then properties ++ [(propDeclId, value)] else properties

def setProperties (properties updatedProperties : List (NodeProperty V)) :
    List (NodeProperty V) :=
  updatedProperties.foldl
    (fun properties updated => setOrAddOrDeleteProperty properties updated.1 updated.2) properties

end NodeProperties

/-- `set_property`. -/
def NodeState.setProperty (state : NodeState V) (propDeclId : NodeId) (value : V) : NodeState V :=
  { state with
    properties := NodeProperties.setOrAddOrDeleteProperty state.properties propDeclId value }

/-! ## §2  References -/

namespace ReferenceDescriptions

/-- `FindReference`. -/
def findReference (references : List ReferenceDescription) (referenceTypeId : NodeId)
    (forward : Bool) : Option ReferenceDescription :=
  references.find? fun ref => ref.forward = forward ∧ ref.referenceTypeId = referenceTypeId

def findReferenceTarget (references : List ReferenceDescription) (referenceTypeId : NodeId)
    (forward : Bool) : Option NodeId :=
  (findReference references referenceTypeId forward).map (·.nodeId)

def setReference (references : List ReferenceDescription) (updated : ReferenceDescription) :
    List ReferenceDescription :=
  match references.findIdx? fun ref =>
      ref.forward = updated.forward ∧ ref.referenceTypeId = updated.referenceTypeId with
  | some i =>
      if updated.nodeId = .null then references.eraseIdx i
      else references.modify i fun ref => { ref with nodeId := updated.nodeId }
  | none => if updated.nodeId ≠ .null then references ++ [updated] else references

def setReferences (references updatedReferences : List ReferenceDescription) :
    List ReferenceDescription :=
  updatedReferences.foldl setReference references

end ReferenceDescriptions

/-! ## §3  What edits come to -/

namespace NodeProperties

variable {properties updates updates' : List (NodeProperty V)} {propDeclId : NodeId} {value : V}

/-- The property is null. -/
def isNull (property : NodeProperty V) : Bool := property.2 = default

omit [Inhabited V] [DecidableEq V] in
theorem findProperty_eq (properties : List (NodeProperty V)) (propDeclId : NodeId) :
    findProperty properties propDeclId =
      (KeyedList.find Prod.fst propDeclId properties).map (·.2) := rfl

theorem setOrAddOrDeleteProperty_eq (properties : List (NodeProperty V)) (property : NodeProperty V) :
    setOrAddOrDeleteProperty properties property.1 property.2 =
      KeyedList.set Prod.fst isNull properties property := by
  unfold setOrAddOrDeleteProperty KeyedList.set isNull
  cases properties.findIdx? (·.1 = property.1) with
  | some i => simp
  | none => by_cases hnull : property.2 = default <;> simp [hnull]

theorem setProperties_eq (properties updates : List (NodeProperty V)) :
    setProperties properties updates = KeyedList.setAll Prod.fst isNull properties updates := by
  unfold setProperties KeyedList.setAll
  congr 1
  funext properties property
  exact setOrAddOrDeleteProperty_eq properties property

/-- A value as it is found once it has been set. -/
def stored (value : V) : Option V := if value = default then none else some value

theorem map_found (property : NodeProperty V) :
    (KeyedList.found isNull property).map (·.2) = stored property.2 := by
  by_cases hnull : property.2 = default
  · simp [KeyedList.found, isNull, stored, hnull]
  · simp [KeyedList.found, isNull, stored, hnull]

/-- **Editing properties updates a map.** However often and in whatever order properties are
set, no property comes twice if none did, none is null if none was, and of each property
the last value is found that it was set to, and nothing if that was null; the others are
untouched. Values of different properties may come in any order. -/
theorem properties_are_a_map (hnodup : (properties.map (·.1)).Nodup) :
    ((setProperties properties updates).map (·.1)).Nodup ∧
    ((∀ property ∈ properties, property.2 ≠ default) →
      ∀ property ∈ setProperties properties updates, property.2 ≠ default) ∧
    (∀ propDeclId, findProperty (setProperties properties updates) propDeclId =
      (findProperty updates.reverse propDeclId).elim (findProperty properties propDeclId) stored) ∧
    (∀ updates' : List (NodeProperty V), updates.Perm updates' → (updates.map (·.1)).Nodup →
      ∀ propDeclId, findProperty (setProperties properties updates) propDeclId =
        findProperty (setProperties properties updates') propDeclId) := by
  simp only [setProperties_eq, findProperty_eq]
  refine ⟨KeyedList.nodup_setAll hnodup, ?_, ?_, ?_⟩
  · intro h property hproperty
    have hold : ∀ property ∈ properties, isNull property = false := fun property hmem =>
      decide_eq_false (h property hmem)
    exact of_decide_eq_false (KeyedList.notNull_setAll hold property hproperty)
  · intro propDeclId
    rw [KeyedList.find_setAll hnodup]
    cases hfind : KeyedList.find Prod.fst propDeclId updates.reverse with
    | none => rfl
    | some property => exact map_found property
  · intro updates' hperm hupdates propDeclId
    rw [KeyedList.find_setAll_perm hnodup hperm hupdates]

/-- A property is set twice, and another one is taken away. -/
theorem properties_are_a_map_twice :
    (setProperties [(.numeric 1 1, some 1), (.numeric 2 1, some 2)]
      [(.numeric 1 1, some 3), (.numeric 2 1, none), (.numeric 1 1, some 4)]).map (·.1) =
        [NodeId.numeric 1 1] ∧
    findProperty (setProperties [(.numeric 1 1, some 1), (.numeric 2 1, some 2)]
      [(.numeric 1 1, some 3), (.numeric 2 1, none), (.numeric 1 1, some 4)]) (.numeric 1 1) =
        some (some 4) := by
  refine ⟨by decide, ?_⟩
  exact Eq.trans ((properties_are_a_map (V := Option ℕ) (by decide)).2.2.1 _) (by decide)

end NodeProperties

namespace ReferenceDescriptions

variable {references updates updates' : List ReferenceDescription}

def typeAndDirection (ref : ReferenceDescription) : NodeId × Bool := (ref.referenceTypeId, ref.forward)

/-- The reference has no target. -/
def isNull (ref : ReferenceDescription) : Bool := ref.nodeId = .null

theorem matches_iff (ref other : ReferenceDescription) :
    (ref.forward = other.forward ∧ ref.referenceTypeId = other.referenceTypeId) ↔
      typeAndDirection ref = typeAndDirection other := by
  rw [typeAndDirection, typeAndDirection, Prod.mk.injEq, and_comm]

theorem findReference_eq (references : List ReferenceDescription) (referenceTypeId : NodeId)
    (forward : Bool) : findReference references referenceTypeId forward =
      KeyedList.find typeAndDirection (referenceTypeId, forward) references := by
  unfold findReference KeyedList.find
  congr 1
  funext ref
  simp [typeAndDirection, and_comm]

/-- Of a reference that is found, only the target is new. -/
theorem modify_eq_set {i : ℕ} {updated : ReferenceDescription}
    (hfind : references.findIdx? (fun ref => typeAndDirection ref = typeAndDirection updated) = some i) :
    references.modify i (fun ref => { ref with nodeId := updated.nodeId }) =
      references.set i updated := by
  obtain ⟨hlt, hkey, -⟩ := List.findIdx?_eq_some_iff_getElem.mp hfind
  have hkey : typeAndDirection references[i] = typeAndDirection updated := of_decide_eq_true hkey
  have hupdated : { references[i] with nodeId := updated.nodeId } = updated := by
    obtain ⟨hforward, htype⟩ := (matches_iff _ _).mpr hkey
    show (⟨references[i].referenceTypeId, references[i].forward, updated.nodeId⟩ :
      ReferenceDescription) = updated
    rw [hforward, htype]
  rw [List.modify_eq_set_getElem?, List.getElem?_eq_getElem hlt]
  exact congrArg (references.set i) hupdated

theorem setReference_eq (references : List ReferenceDescription) (updated : ReferenceDescription) :
    setReference references updated =
      KeyedList.set typeAndDirection isNull references updated := by
  have hmatches : (fun ref : ReferenceDescription => decide (ref.forward = updated.forward ∧
      ref.referenceTypeId = updated.referenceTypeId)) =
      fun ref => decide (typeAndDirection ref = typeAndDirection updated) := by
    funext ref
    exact decide_eq_decide.mpr (matches_iff ref updated)
  unfold setReference KeyedList.set isNull
  rw [hmatches]
  cases hfind : references.findIdx? (typeAndDirection · = typeAndDirection updated) with
  | some i => simp [modify_eq_set hfind]
  | none => by_cases hnull : updated.nodeId = .null <;> simp [hnull]

theorem setReferences_eq (references updates : List ReferenceDescription) :
    setReferences references updates =
      KeyedList.setAll typeAndDirection isNull references updates := by
  unfold setReferences KeyedList.setAll
  congr 1
  funext references updated
  exact setReference_eq references updated

/-- **Editing references updates a map** from types and directions to targets: as long as no
type comes twice in one direction, that stays so, and of each type and direction the last
target is found that was set, and nothing if that was null; the others are untouched. -/
theorem references_are_a_map (hnodup : (references.map typeAndDirection).Nodup) :
    ((setReferences references updates).map typeAndDirection).Nodup ∧
    ∀ referenceTypeId forward,
      findReferenceTarget (setReferences references updates) referenceTypeId forward =
        (findReferenceTarget updates.reverse referenceTypeId forward).elim
          (findReferenceTarget references referenceTypeId forward)
          (fun target => if target = .null then none else some target) := by
  simp only [setReferences_eq, findReferenceTarget, findReference_eq]
  refine ⟨KeyedList.nodup_setAll hnodup, fun referenceTypeId forward => ?_⟩
  rw [KeyedList.find_setAll hnodup]
  cases hfind : KeyedList.find typeAndDirection (referenceTypeId, forward) updates.reverse with
  | none => rfl
  | some updated =>
      by_cases hnull : updated.nodeId = .null
      · simp [KeyedList.found, isNull, hnull]
      · simp [KeyedList.found, isNull, hnull]

/-- The parent changes, and the type definition goes. -/
theorem references_are_a_map_moved :
    findReferenceTarget
        (setReferences [⟨.numeric 35 0, false, .numeric 1 1⟩, ⟨.numeric 40 0, true, .numeric 2 1⟩]
          [⟨.numeric 40 0, true, .null⟩, ⟨.numeric 35 0, false, .numeric 3 1⟩])
        (.numeric 35 0) false = some (.numeric 3 1) :=
  (references_are_a_map (by decide)).2 (.numeric 35 0) false

end ReferenceDescriptions

/-! ## §4  Reading a record -/

/-- A field that is read: the property, and `ConvertVariant` from it into the field, if the
conversion succeeds. -/
structure PropertyField (V T : Type) where
  propDeclId : NodeId
  convert : V → Option (T → T)

structure NodeStateReader (V T : Type) where
  nodeState : NodeState V
  ok : Bool := true
  result : T

namespace NodeStateReader

variable {T : Type}

/-- `property`. -/
def property (reader : NodeStateReader V T) (field : PropertyField V T) : NodeStateReader V T :=
  match NodeProperties.findProperty reader.nodeState.properties field.propDeclId with
  | none => reader
  | some value =>
      if value = default then reader
      else
        match field.convert value with
        | none => { reader with ok := false }
        | some assign => { reader with result := assign reader.result }

def read (reader : NodeStateReader V T) : Option T := if reader.ok then some reader.result else none

def readAll (reader : NodeStateReader V T) (fields : List (PropertyField V T)) : Option T :=
  (fields.foldl property reader).read

/-- What a value does to the record: nothing if it is null. -/
def assigned (field : PropertyField V T) (value : V) : Option (T → T) :=
  if value = default then some id else field.convert value

/-- What the property of a field does to the record. -/
def assignment (properties : List (NodeProperty V)) (field : PropertyField V T) :
    Option (T → T) :=
  (NodeProperties.findProperty properties field.propDeclId).elim (some id) (assigned field)

theorem property_eq (reader : NodeStateReader V T) (field : PropertyField V T) :
    reader.property field = (assignment reader.nodeState.properties field).elim
      { reader with ok := false } fun assign => { reader with result := assign reader.result } := by
  unfold property assignment assigned
  cases NodeProperties.findProperty reader.nodeState.properties field.propDeclId with
  | none => rfl
  | some value =>
      by_cases hnull : value = default
      · simp [hnull]
      · cases hconvert : field.convert value <;> simp [hnull, hconvert]

/-- A reader reads what the properties of its fields assign, all of them. -/
theorem readAll_eq (reader : NodeStateReader V T) (fields : List (PropertyField V T)) :
    reader.readAll fields =
      if reader.ok then
        (fields.mapM (assignment reader.nodeState.properties)).map
          (List.foldl (fun result assign => assign result) reader.result)
      else none := by
  induction fields generalizing reader with
  | nil => rfl
  | cons field fields ih =>
      show (reader.property field).readAll fields = _
      rw [ih, property_eq, List.mapM_cons]
      cases hassign : assignment reader.nodeState.properties field with
      | none => simp
      | some assign => cases hrest : fields.mapM (assignment reader.nodeState.properties) <;> simp [hrest]

/-- **Reading fails exactly where a value does not fit.** A record is read unless some field
has a property that is not null and does not convert, wherever that comes. -/
theorem readAll_isSome (state : NodeState V) (start : T) (fields : List (PropertyField V T)) :
    (readAll { nodeState := state, result := start } fields).isSome ↔
      ∀ field ∈ fields, ∀ value,
        NodeProperties.findProperty state.properties field.propDeclId = some value →
          value ≠ default → (field.convert value).isSome := by
  have hfield : ∀ field : PropertyField V T, (assignment state.properties field).isSome ↔
      ∀ value, NodeProperties.findProperty state.properties field.propDeclId = some value →
        value ≠ default → (field.convert value).isSome := by
    intro field
    unfold assignment assigned
    cases NodeProperties.findProperty state.properties field.propDeclId with
    | none => simp
    | some value => by_cases hnull : value = default <;> simp [hnull]
  have hall : ∀ fields : List (PropertyField V T),
      (fields.mapM (assignment state.properties)).isSome ↔
        ∀ field ∈ fields, (assignment state.properties field).isSome := by
    intro fields
    induction fields with
    | nil => simp
    | cons field fields ih =>
        rw [List.mapM_cons, List.forall_mem_cons, ← ih]
        cases assignment state.properties field <;>
          cases fields.mapM (assignment state.properties) <;> simp
  rw [readAll_eq, if_pos rfl, Option.isSome_map, hall]
  exact forall₂_congr fun field _ => hfield field

/-- A field with what is written for it. -/
structure RecordField (V T : Type) extends PropertyField V T where
  write : T → V

/-- Fields of a record: each has its own property, what is written for it can be read, and
they are the whole record; a field of which a null value is written has it already. -/
structure Complete (fields : List (RecordField V T)) (start : T) : Prop where
  distinct : (fields.map (·.propDeclId)).Nodup
  converts : ∀ field ∈ fields, ∀ t, (assigned field.toPropertyField (field.write t)).isSome
  whole : ∀ t, fields.foldl
    (fun result field => (assigned field.toPropertyField (field.write t)).elim result (· result))
      start = t

/-- The values that are written for a record. -/
def written (fields : List (RecordField V T)) (t : T) : List (NodeProperty V) :=
  fields.map fun field => (field.propDeclId, field.write t)

/-- The assignments of fields whose properties have the values of a record. -/
theorem foldl_assignments {properties : List (NodeProperty V)} {fields : List (RecordField V T)}
    {t : T} (start : T)
    (hassign : ∀ field ∈ fields, assignment properties field.toPropertyField =
      assigned field.toPropertyField (field.write t))
    (hconverts : ∀ field ∈ fields, (assigned field.toPropertyField (field.write t)).isSome) :
    ((fields.map (·.toPropertyField)).mapM (assignment properties)).map
        (List.foldl (fun result assign => assign result) start) =
      some (fields.foldl
        (fun result field =>
          (assigned field.toPropertyField (field.write t)).elim result (· result)) start) := by
  induction fields generalizing start with
  | nil => rfl
  | cons field fields ih =>
      obtain ⟨hfirst, hrest⟩ := List.forall_mem_cons.mp hassign
      obtain ⟨hsome, hsomes⟩ := List.forall_mem_cons.mp hconverts
      obtain ⟨assign, hassigned⟩ := Option.isSome_iff_exists.mp hsome
      have ih := ih (assign start) hrest hsomes
      rw [List.map_cons, List.mapM_cons, hfirst, hassigned, List.foldl_cons, hassigned]
      cases hmapM : (fields.map (·.toPropertyField)).mapM (assignment properties) with
      | none => simp [hmapM] at ih
      | some assigns => simpa [hmapM] using ih

/-- The property of a field when a record has been written, and others have been set. -/
theorem assignment_written {fields order : List (RecordField V T)} {start : T}
    (hcomplete : Complete fields start) (horder : order.Perm fields)
    {properties : List (NodeProperty V)} (hproperties : (properties.map (·.1)).Nodup)
    {others : List (NodeProperty V)}
    (hothers : ∀ property ∈ others, property.1 ∉ fields.map (·.propDeclId)) (t : T)
    {field : RecordField V T} (hfield : field ∈ fields) :
    assignment (NodeProperties.setProperties properties (written order t ++ others))
        field.toPropertyField =
      assigned field.toPropertyField (field.write t) := by
  have hkeys : (written order t).map Prod.fst = order.map (·.propDeclId) := by
    simp [written]
  have hnodup : ((written order t).reverse.map Prod.fst).Nodup := by
    rw [List.map_reverse, List.nodup_reverse, hkeys]
    exact (horder.map _).nodup_iff.mpr hcomplete.distinct
  have hmem : (field.propDeclId, field.write t) ∈ (written order t).reverse :=
    List.mem_reverse.mpr (List.mem_map_of_mem (horder.mem_iff.mpr hfield))
  have hothersNone : KeyedList.find Prod.fst field.propDeclId others.reverse = none := by
    rw [KeyedList.find_eq_none, List.map_reverse, List.mem_reverse, List.mem_map]
    rintro ⟨property, hproperty, hkey⟩
    exact hothers property hproperty (hkey ▸ List.mem_map_of_mem hfield)
  have hfind : KeyedList.find Prod.fst field.propDeclId (written order t ++ others).reverse =
      some (field.propDeclId, field.write t) := by
    rw [List.reverse_append, KeyedList.find_append, hothersNone]
    exact (KeyedList.find_eq_some hnodup).mpr ⟨hmem, rfl⟩
  have hstored : NodeProperties.findProperty
      (NodeProperties.setProperties properties (written order t ++ others)) field.propDeclId =
        NodeProperties.stored (field.write t) := by
    rw [NodeProperties.findProperty_eq, NodeProperties.setProperties_eq,
      KeyedList.find_setAll hproperties, hfind]
    exact NodeProperties.map_found _
  rw [assignment, hstored, NodeProperties.stored]
  split
  · rename_i hnull
    simp [assigned, hnull]
  · rfl

/-- **What is written is read back.** A record that is written into the properties of a
state, in any order of its fields and whatever these were set to before, is read back as it
was, also when other properties have been set since. -/
theorem read_written {fields order : List (RecordField V T)} {start : T}
    (hcomplete : Complete fields start) (horder : order.Perm fields) (state : NodeState V)
    (hstate : (state.properties.map (·.1)).Nodup) (others : List (NodeProperty V))
    (hothers : ∀ property ∈ others, property.1 ∉ fields.map (·.propDeclId)) (t : T) :
    readAll
      { nodeState := { state with
          properties := NodeProperties.setProperties state.properties (written order t ++ others) }
        result := start }
      (fields.map (·.toPropertyField)) = some t := by
  rw [readAll_eq, if_pos rfl]
  have hassign := fun field hfield =>
    assignment_written hcomplete horder hstate hothers t (hfield : field ∈ fields)
  rw [foldl_assignments start hassign fun field hfield => hcomplete.converts field hfield t,
    hcomplete.whole]

/-- Two numbers, of which zero is not written. -/
def numberFields : List (RecordField (Option ℕ) (ℕ × ℕ)) :=
  [{ propDeclId := .numeric 1 1
     convert := fun value => value.map fun n record => (n, record.2)
     write := fun record => if record.1 = 0 then none else some record.1 },
    { propDeclId := .numeric 2 1
      convert := fun value => value.map fun n record => (record.1, n)
      write := fun record => if record.2 = 0 then none else some record.2 }]

theorem default_number : (default : Option ℕ) = none := rfl

theorem complete_numberFields : Complete numberFields (0, 0) where
  distinct := by decide
  converts := by
    intro field hfield record
    rcases List.mem_pair.mp hfield with rfl | rfl
    · by_cases hzero : record.1 = 0 <;> simp [assigned, default_number, hzero]
    · by_cases hzero : record.2 = 0 <;> simp [assigned, default_number, hzero]
  whole := by
    rintro ⟨m, n⟩
    by_cases hm : m = 0 <;> by_cases hn : n = 0 <;>
      simp [numberFields, assigned, default_number, hm, hn]

/-- The second number is zero: its old property goes. -/
theorem read_written_numbers :
    readAll
      { nodeState := {
          nodeId := .numeric 5 1
          properties := NodeProperties.setProperties [(.numeric 2 1, some 9)]
            (written numberFields.reverse (6, 0) ++ [(.numeric 3 1, some 7)]) }
        result := (0, 0) }
      (numberFields.map (·.toPropertyField)) = some (6, 0) :=
  read_written complete_numberFields (List.reverse_perm _)
    { nodeId := .numeric 5 1, properties := [(.numeric 2 1, some 9)] } (by decide)
    [(.numeric 3 1, some 7)] (by decide) (6, 0)

end NodeStateReader

end ScadaCommon.AddressSpace
