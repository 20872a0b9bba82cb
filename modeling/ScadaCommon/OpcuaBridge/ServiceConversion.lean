import Mathlib.Data.List.TakeWhile
import Mathlib.Data.Rat.Defs
import Mathlib.Data.UInt
import ScadaCommon.OpcuaBridge.Conversion

/-!
# Conversions of requests

What a client asks for crosses to the opcua types and back. Most fields are copied. A
sampling interval goes as milliseconds in a double, a queue size in 32 bits, and the
filters that the other side has no type for as json.

§1 items and attributes · §2 durations · §3 history · §4 json · §5 filters · §6
monitored items · §7 round trips.
-/

namespace ScadaCommon.OpcuaBridge

variable {D P : Type}

/-! ## §1  Items and attributes -/

/-- The underlying value of the enumeration, the same on both sides. -/
abbrev AttributeId := UInt32

abbrev NodeClass := UInt32

structure ReadValueId (side : Side) where
  nodeId : NodeId side
  attributeId : AttributeId
deriving DecidableEq

def ReadValueId.toOpcua (v : ReadValueId .scada) : ReadValueId .opcua :=
  ⟨v.nodeId.toOpcua, v.attributeId⟩

def ReadValueId.toScada (v : ReadValueId .opcua) : ReadValueId .scada :=
  ⟨v.nodeId.toScada, v.attributeId⟩

@[simp] theorem ReadValueId.toScada_toOpcua (v : ReadValueId .scada) : v.toOpcua.toScada = v := by
  unfold toOpcua toScada
  rw [NodeId.toScada_toOpcua]

/-- `scada::NodeAttributes`. -/
structure ScadaNodeAttributes (D A : Type) where
  browseName : QualifiedName .scada
  displayName : LocalizedText .scada
  dataType : NodeId .scada
  value : Option (Variant .scada D A)
  inverseName : LocalizedText .scada
deriving DecidableEq

/-- What of `opcua::NodeAttributes` the bridge names. -/
structure OpcuaNodeAttributes (D A : Type) where
  browseName : QualifiedName .opcua
  displayName : LocalizedText .opcua
  dataType : NodeId .opcua
  value : Option (Variant .opcua D A)
deriving DecidableEq

structure ScadaAddNodesItem (D A : Type) where
  requestedId : NodeId .scada
  parentId : NodeId .scada
  nodeClass : NodeClass
  typeDefinitionId : NodeId .scada
  attributes : ScadaNodeAttributes D A
deriving DecidableEq

structure OpcuaAddNodesItem (D A : Type) where
  requestedId : NodeId .opcua
  parentId : NodeId .opcua
  nodeClass : NodeClass
  typeDefinitionId : NodeId .opcua
  attributes : OpcuaNodeAttributes D A
deriving DecidableEq

section

variable (codec : BinaryCodec) (kIdentityMappingRuleTypeDataTypeId : UInt32)

def ScadaNodeAttributes.toOpcua (v : ScadaNodeAttributes D (ScadaPayload P)) :
    OpcuaNodeAttributes D OpcuaPayload where
  browseName := v.browseName.toOpcua
  displayName := v.displayName.toOpcua
  dataType := v.dataType.toOpcua
  value := v.value.map (·.toOpcua codec)

/-- The inverse name is the default one. -/
def OpcuaNodeAttributes.toScada (v : OpcuaNodeAttributes D OpcuaPayload) :
    ScadaNodeAttributes D (ScadaPayload P) where
  browseName := v.browseName.toScada
  displayName := v.displayName.toScada
  dataType := v.dataType.toScada
  value := v.value.map (·.toScada codec kIdentityMappingRuleTypeDataTypeId)
  inverseName := ⟨[], []⟩

def ScadaAddNodesItem.toOpcua (v : ScadaAddNodesItem D (ScadaPayload P)) :
    OpcuaAddNodesItem D OpcuaPayload where
  requestedId := v.requestedId.toOpcua
  parentId := v.parentId.toOpcua
  nodeClass := v.nodeClass
  typeDefinitionId := v.typeDefinitionId.toOpcua
  attributes := v.attributes.toOpcua codec

def OpcuaAddNodesItem.toScada (v : OpcuaAddNodesItem D OpcuaPayload) :
    ScadaAddNodesItem D (ScadaPayload P) where
  requestedId := v.requestedId.toScada
  parentId := v.parentId.toScada
  nodeClass := v.nodeClass
  typeDefinitionId := v.typeDefinitionId.toScada
  attributes := v.attributes.toScada codec kIdentityMappingRuleTypeDataTypeId

/-- What the round trip asks of the value of a node. -/
def ScadaNodeAttributes.ValueKept (v : ScadaNodeAttributes D (ScadaPayload P)) : Prop :=
  ∀ value ∈ v.value, value.CodecInverse codec ∧ value.Kept kIdentityMappingRuleTypeDataTypeId

variable {codec kIdentityMappingRuleTypeDataTypeId}

/-- **Items.** All but the inverse name comes back. -/
theorem ScadaAddNodesItem.toScada_toOpcua (v : ScadaAddNodesItem D (ScadaPayload P))
    (hvalue : v.attributes.ValueKept codec kIdentityMappingRuleTypeDataTypeId) :
    (v.toOpcua codec).toScada codec kIdentityMappingRuleTypeDataTypeId =
      { v with attributes := { v.attributes with inverseName := ⟨[], []⟩ } } := by
  have hback : (v.attributes.value.map (·.toOpcua codec)).map
      (·.toScada codec kIdentityMappingRuleTypeDataTypeId) = v.attributes.value := by
    cases hv : v.attributes.value with
    | none => rfl
    | some value =>
        obtain ⟨hcodec, hkept⟩ := hvalue value hv
        rw [Option.map_some, Option.map_some, (Variant.toScada_toOpcua_iff hcodec).mpr hkept]
  simp only [toOpcua, OpcuaAddNodesItem.toScada, ScadaNodeAttributes.toOpcua,
    OpcuaNodeAttributes.toScada, NodeId.toScada_toOpcua, QualifiedName.toScada_toOpcua,
    LocalizedText.toScada_toOpcua, hback]

end

/-! ## §2  Durations -/

/-- `base::TimeDelta`: microseconds. -/
structure TimeDelta where
  internalValue : ℤ
deriving DecidableEq

namespace TimeDelta

def max : TimeDelta := ⟨DateTime.int64Max⟩

def min : TimeDelta := ⟨DateTime.int64Min⟩

end TimeDelta

/-- `opcua::Duration`: milliseconds. -/
structure Duration (D : Type) where
  internalValue : D
deriving DecidableEq

/-- What is used of doubles, and of the durations on both sides. -/
structure Doubles (D : Type) where
  zero : D
  /-- `> 0`. -/
  positive : D → Bool
  /-- The integer that a double without a fraction is. -/
  exact : D → Option ℤ
  /-- `base::TimeDelta::InMillisecondsF`. -/
  inMillisecondsF : TimeDelta → D
  /-- `base::TimeDelta::FromMillisecondsD`. -/
  fromMillisecondsD : D → TimeDelta
  durationMax : D
  durationMin : D
  /-- `opcua::Duration::InMicroseconds`. -/
  inMicroseconds : D → ℤ
  durationMin_ne_durationMax : durationMin ≠ durationMax

section

variable [DecidableEq D] (doubles : Doubles D)

def TimeDelta.toOpcua (d : TimeDelta) : Duration D :=
  if d = max then ⟨doubles.durationMax⟩
  else if d = min then ⟨doubles.durationMin⟩
  else ⟨doubles.inMillisecondsF d⟩

def Duration.toScada (d : Duration D) : TimeDelta :=
  if d.internalValue = doubles.durationMax then .max
  else if d.internalValue = doubles.durationMin then .min
  else ⟨doubles.inMicroseconds d.internalValue⟩

/-- The durations whose milliseconds are exact, and the two ends. -/
def TimeDelta.Exact (d : TimeDelta) : Prop :=
  d = max ∨ d = min ∨
    (doubles.inMillisecondsF d ≠ doubles.durationMax ∧
      doubles.inMillisecondsF d ≠ doubles.durationMin ∧
      doubles.inMicroseconds (doubles.inMillisecondsF d) = d.internalValue)

variable {doubles}

theorem TimeDelta.toScada_toOpcua_iff {d : TimeDelta} :
    (d.toOpcua doubles).toScada doubles = d ↔ d.Exact doubles := by
  unfold toOpcua Duration.toScada Exact
  by_cases hmax : d = max
  · simp [hmax]
  by_cases hmin : d = min
  · rw [if_neg hmax, if_pos hmin]
    simp only [doubles.durationMin_ne_durationMax, if_false, if_true]
    exact iff_of_true hmin.symm (Or.inr (Or.inl hmin))
  simp only [hmax, hmin, if_false, false_or]
  split
  · rename_i htop
    exact iff_of_false (fun h => hmax h.symm) (fun h => h.1 htop)
  · rename_i htop
    split
    · rename_i hbottom
      exact iff_of_false (fun h => hmin h.symm) (fun h => h.2.1 hbottom)
    · rename_i hbottom
      constructor
      · intro h
        exact ⟨htop, hbottom, congrArg TimeDelta.internalValue h⟩
      · rintro ⟨-, -, h⟩
        rw [h]

end

/-! ## §3  History -/

structure ScadaAggregateFilter where
  startTime : DateTime .scada
  interval : TimeDelta
  aggregateType : NodeId .scada
deriving DecidableEq

structure OpcuaAggregateFilter (D : Type) where
  startTime : DateTime .opcua
  interval : Duration D
  aggregateType : NodeId .opcua
deriving DecidableEq

structure ScadaHistoryReadRawDetails where
  nodeId : NodeId .scada
  fromTime : DateTime .scada
  toTime : DateTime .scada
  maxCount : UInt64
  aggregation : ScadaAggregateFilter
  releaseContinuationPoint : Bool
  continuationPoint : Bytes
deriving DecidableEq

structure OpcuaHistoryReadRawDetails (D : Type) where
  nodeId : NodeId .opcua
  fromTime : DateTime .opcua
  toTime : DateTime .opcua
  maxCount : UInt64
  aggregation : OpcuaAggregateFilter D
  releaseContinuationPoint : Bool
  continuationPoint : Bytes
deriving DecidableEq

section

variable [DecidableEq D] (doubles : Doubles D)

def ScadaAggregateFilter.toOpcua (v : ScadaAggregateFilter) : OpcuaAggregateFilter D :=
  ⟨v.startTime.toOpcua, v.interval.toOpcua doubles, v.aggregateType.toOpcua⟩

def OpcuaAggregateFilter.toScada (v : OpcuaAggregateFilter D) : ScadaAggregateFilter :=
  ⟨v.startTime.toScada, v.interval.toScada doubles, v.aggregateType.toScada⟩

def ScadaHistoryReadRawDetails.toOpcua (v : ScadaHistoryReadRawDetails) :
    OpcuaHistoryReadRawDetails D where
  nodeId := v.nodeId.toOpcua
  fromTime := v.fromTime.toOpcua
  toTime := v.toTime.toOpcua
  maxCount := v.maxCount
  aggregation := v.aggregation.toOpcua doubles
  releaseContinuationPoint := v.releaseContinuationPoint
  continuationPoint := v.continuationPoint

def OpcuaHistoryReadRawDetails.toScada (v : OpcuaHistoryReadRawDetails D) :
    ScadaHistoryReadRawDetails where
  nodeId := v.nodeId.toScada
  fromTime := v.fromTime.toScada
  toTime := v.toTime.toScada
  maxCount := v.maxCount
  aggregation := v.aggregation.toScada doubles
  releaseContinuationPoint := v.releaseContinuationPoint
  continuationPoint := v.continuationPoint

/-- The times of a history read are exact on the other side. -/
structure ScadaHistoryReadRawDetails.Exact (v : ScadaHistoryReadRawDetails) : Prop where
  fromTime : v.fromTime.Convertible
  toTime : v.toTime.Convertible
  startTime : v.aggregation.startTime.Convertible
  interval : v.aggregation.interval.Exact doubles

variable {doubles}

/-- **History reads.** -/
theorem ScadaHistoryReadRawDetails.toScada_toOpcua_iff {v : ScadaHistoryReadRawDetails} :
    (v.toOpcua doubles).toScada doubles = v ↔ v.Exact doubles := by
  obtain ⟨nodeId, fromTime, toTime, maxCount, ⟨startTime, interval, aggregateType⟩, release,
    point⟩ := v
  simp only [toOpcua, OpcuaHistoryReadRawDetails.toScada, ScadaAggregateFilter.toOpcua,
    OpcuaAggregateFilter.toScada, ScadaHistoryReadRawDetails.mk.injEq,
    ScadaAggregateFilter.mk.injEq, NodeId.toScada_toOpcua, DateTime.toScada_toOpcua_iff,
    TimeDelta.toScada_toOpcua_iff, true_and, and_true]
  constructor
  · rintro ⟨hfrom, hto, hstart, hinterval⟩
    exact ⟨hfrom, hto, hstart, hinterval⟩
  · rintro ⟨hfrom, hto, hstart, hinterval⟩
    exact ⟨hfrom, hto, hstart, hinterval⟩

end

/-! ## §4  Json -/

/-- `boost::json::value`. -/
inductive Json (D : Type) where
  | null
  | bool (value : Bool)
  | int64 (value : ℤ)
  | uint64 (value : UInt64)
  | double (value : D)
  | string (text : Bytes)
  | array (items : List (Json D))
  | object (members : List (String × Json D))

namespace Json

/-- `at`, which throws. -/
def member (members : List (String × Json D)) (key : String) : Option (Json D) :=
  members.lookup key

def asArray : Json D → Option (List (Json D))
  | .array items => some items
  | _ => none

def asString : Json D → Option Bytes
  | .string text => some text
  | _ => none

/-- `to_number`: throws unless the number is one of the type. -/
def toNumber (doubles : Doubles D) (lowest highest : ℤ) (json : Json D) : Option ℤ :=
  let inRange : ℤ → Option ℤ := fun n => if lowest ≤ n ∧ n ≤ highest then some n else none
  match json with
  | .int64 value => inRange value
  | .uint64 value => inRange value.toNat
  | .double value => (doubles.exact value).bind inRange
  | _ => none

def toUInt64 (doubles : Doubles D) (json : Json D) : Option ℤ :=
  json.toNumber doubles 0 (2 ^ 64 - 1)

def toInt64 (doubles : Doubles D) (json : Json D) : Option ℤ :=
  json.toNumber doubles DateTime.int64Min DateTime.int64Max

end Json

/-! ## §5  Filters -/

theorem DateTime.Convertible.isInt64 {t : DateTime .scada} (h : t.Convertible) :
    DateTime.int64Min ≤ t.internalValue ∧ t.internalValue ≤ DateTime.int64Max := by
  rcases h with rfl | rfl | ⟨hlow, hhigh⟩
  · exact ⟨by decide, le_refl _⟩
  · exact ⟨le_refl _, by decide⟩
  · exact ⟨le_trans (by decide) hlow, le_trans hhigh (by decide)⟩

/-- `NodeId::ToString` and `NodeId::FromString`. -/
structure NodeIdText where
  toString : NodeId .scada → Bytes
  fromString : Bytes → NodeId .scada

/-- What `c_str` shows of a string. -/
def cString (text : Bytes) : Bytes := text.takeWhile (· ≠ 0)

structure ScadaEventFilter where
  types : UInt32
  ofType : List (NodeId .scada)
  childOf : List (NodeId .scada)
deriving DecidableEq

structure ScadaDataChangeFilter (D : Type) where
  deadbandValue : D
deriving DecidableEq

inductive DataChangeTrigger where
  | status
  | statusValue
  | statusValueTimestamp
deriving DecidableEq

inductive DeadbandType where
  | none
  | absolute
  | percent
deriving DecidableEq

structure OpcuaDataChangeFilter (D : Type) where
  trigger : DataChangeTrigger
  deadbandType : DeadbandType
  deadbandValue : D
deriving DecidableEq

/-- `scada::MonitoringFilter`. -/
inductive ScadaMonitoringFilter (D : Type) where
  | monostate
  | dataChange (filter : ScadaDataChangeFilter D)
  | event (filter : ScadaEventFilter)
  | aggregate (filter : ScadaAggregateFilter)
deriving DecidableEq

inductive OpcuaMonitoringFilter (D : Type) where
  | dataChange (filter : OpcuaDataChangeFilter D)
  | json (value : Json D)

/-- `_scada`. -/
def tagKey : String := "_scada"

/-- `event`. -/
def eventTag : Bytes := [101, 118, 101, 110, 116]

/-- `aggregate`. -/
def aggregateTag : Bytes := [97, 103, 103, 114, 101, 103, 97, 116, 101]

section

variable (doubles : Doubles D) (text : NodeIdText)

/-- A deadband is an absolute one. -/
def ScadaDataChangeFilter.toOpcua (v : ScadaDataChangeFilter D) : OpcuaDataChangeFilter D where
  trigger := .statusValue
  deadbandType := if doubles.positive v.deadbandValue then .absolute else .none
  deadbandValue := v.deadbandValue

def OpcuaDataChangeFilter.toScada (v : OpcuaDataChangeFilter D) : ScadaDataChangeFilter D :=
  ⟨v.deadbandValue⟩

def idToJson (id : NodeId .scada) : Json D := .string (text.toString id)

def idFromJson (json : Json D) : Option (NodeId .scada) :=
  json.asString.map fun string => text.fromString (cString string)

def eventFilterToJson (v : ScadaEventFilter) : Json D :=
  .object [(tagKey, .string eventTag), ("types", .uint64 v.types.toUInt64),
    ("of_type", .array (v.ofType.map (idToJson text))),
    ("child_of", .array (v.childOf.map (idToJson text)))]

def eventFilterFromJson (members : List (String × Json D)) : Option ScadaEventFilter := do
  let types ← Json.member members "types"
  let types ← types.toUInt64 doubles
  let ofType ← Json.member members "of_type"
  let ofType ← ofType.asArray
  let ofType ← ofType.mapM (idFromJson text)
  let childOf ← Json.member members "child_of"
  let childOf ← childOf.asArray
  let childOf ← childOf.mapM (idFromJson text)
  return ⟨UInt32.ofNat types.toNat, ofType, childOf⟩

def aggregateFilterToJson (v : ScadaAggregateFilter) : Json D :=
  .object [(tagKey, .string aggregateTag), ("start_time_us", .int64 v.startTime.internalValue),
    ("interval_us", .int64 v.interval.internalValue),
    ("aggregate_type", idToJson text v.aggregateType)]

def aggregateFilterFromJson (members : List (String × Json D)) : Option ScadaAggregateFilter := do
  let startTime ← Json.member members "start_time_us"
  let startTime ← startTime.toInt64 doubles
  let interval ← Json.member members "interval_us"
  let interval ← interval.toInt64 doubles
  let aggregateType ← Json.member members "aggregate_type"
  let aggregateType ← idFromJson text aggregateType
  return ⟨⟨startTime⟩, ⟨interval⟩, aggregateType⟩

def toOpcuaFilter (f : ScadaMonitoringFilter D) : Option (OpcuaMonitoringFilter D) :=
  match f with
  | .monostate => none
  | .dataChange filter => some (.dataChange (filter.toOpcua doubles))
  | .event filter => some (.json (eventFilterToJson text filter))
  | .aggregate filter => some (.json (aggregateFilterToJson text filter))

/-- By the tag of the json object. -/
def taggedFilter (tag : Bytes) (members : List (String × Json D)) :
    Option (ScadaMonitoringFilter D) :=
  if tag = eventTag then (eventFilterFromJson doubles text members).map .event
  else if tag = aggregateTag then (aggregateFilterFromJson doubles text members).map .aggregate
  else some .monostate

/-- `none` is what a json value throws. -/
def toScadaFilter (f : Option (OpcuaMonitoringFilter D)) : Option (ScadaMonitoringFilter D) :=
  match f with
  | none => some .monostate
  | some (.dataChange filter) => some (.dataChange filter.toScada)
  | some (.json (.object members)) =>
      match Json.member members tagKey with
      | some (.string tag) => taggedFilter doubles text tag members
      | _ => some .monostate
  | some (.json _) => some .monostate

/-- A node id comes back from its text, which `c_str` shows as a whole. -/
def NodeIdText.Kept (id : NodeId .scada) : Prop :=
  text.fromString (text.toString id) = id ∧ 0 ∉ text.toString id

/-- What the round trip asks of a filter. -/
def ScadaMonitoringFilter.Kept : ScadaMonitoringFilter D → Prop
  | .monostate => True
  | .dataChange _ => True
  | .event filter =>
      (∀ id ∈ filter.ofType, text.Kept id) ∧ ∀ id ∈ filter.childOf, text.Kept id
  | .aggregate filter =>
      filter.startTime.Convertible ∧ DateTime.int64Min ≤ filter.interval.internalValue ∧
        filter.interval.internalValue ≤ DateTime.int64Max ∧ text.Kept filter.aggregateType

variable {doubles text}

theorem cString_eq {string : Bytes} (h : 0 ∉ string) : cString string = string := by
  refine List.takeWhile_eq_self_iff.mpr fun byte hbyte => decide_eq_true ?_
  rintro rfl
  exact h hbyte

theorem idFromJson_idToJson {id : NodeId .scada} (h : text.Kept id) :
    idFromJson (D := D) text (idToJson text id) = some id := by
  rw [idFromJson, idToJson, Json.asString, Option.map_some, cString_eq h.2, h.1]

theorem mapM_idFromJson {ids : List (NodeId .scada)} (h : ∀ id ∈ ids, text.Kept id) :
    (ids.map (idToJson (D := D) text)).mapM (idFromJson text) = some ids := by
  induction ids with
  | nil => rfl
  | cons id ids ih =>
      rw [List.map_cons, List.mapM_cons, idFromJson_idToJson (h id List.mem_cons_self),
        ih fun id hid => h id (List.mem_cons_of_mem _ hid)]
      rfl

theorem toUInt64_types (types : UInt32) :
    (Json.uint64 types.toUInt64 : Json D).toUInt64 doubles = some types.toNat := by
  have hlt := types.toNat_lt
  simp only [Json.toUInt64, Json.toNumber, UInt32.toNat_toUInt64]
  exact if_pos ⟨by omega, by omega⟩

theorem toInt64_int64 {n : ℤ} (hlow : DateTime.int64Min ≤ n) (hhigh : n ≤ DateTime.int64Max) :
    (Json.int64 n : Json D).toInt64 doubles = some n := by
  simp only [Json.toInt64, Json.toNumber]
  rw [if_pos ⟨hlow, hhigh⟩]

/-- **Filters** come back, as json or not. -/
theorem toScadaFilter_toOpcuaFilter {f : ScadaMonitoringFilter D} (h : f.Kept text) :
    toScadaFilter doubles text (toOpcuaFilter doubles text f) = some f := by
  cases f with
  | monostate => rfl
  | dataChange filter => rfl
  | event filter =>
      obtain ⟨types, ofType, childOf⟩ := filter
      obtain ⟨hof, hchild⟩ := h
      have hback : eventFilterFromJson doubles text [(tagKey, .string eventTag),
          ("types", .uint64 types.toUInt64), ("of_type", .array (ofType.map (idToJson text))),
          ("child_of", .array (childOf.map (idToJson text)))] =
            some ⟨types, ofType, childOf⟩ := by
        simp only [eventFilterFromJson, Json.member, tagKey, List.lookup_cons, String.reduceBEq,
          Option.bind_eq_bind, Option.bind_some, toUInt64_types, Json.asArray,
          mapM_idFromJson hof, mapM_idFromJson hchild, Int.toNat_natCast, UInt32.ofNat_toNat,
          Option.pure_def]
      show taggedFilter doubles text eventTag _ = _
      rw [taggedFilter, if_pos rfl, hback]
      rfl
  | aggregate filter =>
      obtain ⟨⟨startTime⟩, ⟨interval⟩, aggregateType⟩ := filter
      obtain ⟨hstart, hlow, hhigh, hid⟩ := h
      obtain ⟨hstartLow, hstartHigh⟩ := hstart.isInt64
      have hback : aggregateFilterFromJson doubles text [(tagKey, .string aggregateTag),
          ("start_time_us", .int64 startTime), ("interval_us", .int64 interval),
          ("aggregate_type", idToJson text aggregateType)] =
            some ⟨⟨startTime⟩, ⟨interval⟩, aggregateType⟩ := by
        simp only [aggregateFilterFromJson, Json.member, tagKey, List.lookup_cons, String.reduceBEq,
          Option.bind_eq_bind, Option.bind_some, toInt64_int64 hstartLow hstartHigh,
          toInt64_int64 hlow hhigh, idFromJson_idToJson hid, Option.pure_def]
      show taggedFilter doubles text aggregateTag _ = _
      rw [taggedFilter, if_neg (by decide), if_pos rfl, hback]
      rfl

end

/-! ## §6  Monitored items -/

structure ScadaMonitoringParameters (D : Type) where
  samplingInterval : Option TimeDelta
  filter : ScadaMonitoringFilter D
  queueSize : Option UInt64
deriving DecidableEq

structure OpcuaMonitoringParameters (D : Type) where
  clientHandle : UInt32 := 0
  samplingIntervalMs : D
  filter : Option (OpcuaMonitoringFilter D)
  queueSize : UInt32

inductive MonitoringMode where
  | disabled
  | sampling
  | reporting
deriving DecidableEq

structure ScadaMonitoredItemCreateRequest (D : Type) where
  itemToMonitor : ReadValueId .scada
  parameters : ScadaMonitoringParameters D
  clientHandle : UInt32
deriving DecidableEq

structure OpcuaMonitoredItemCreateRequest (D : Type) where
  itemToMonitor : ReadValueId .opcua
  monitoringMode : MonitoringMode
  requestedParameters : OpcuaMonitoringParameters D

section

variable (doubles : Doubles D) (text : NodeIdText)

/-- An absent interval is 0, an absent size 1. -/
def ScadaMonitoringParameters.toOpcua (v : ScadaMonitoringParameters D) :
    OpcuaMonitoringParameters D where
  samplingIntervalMs := v.samplingInterval.elim doubles.zero doubles.inMillisecondsF
  filter := toOpcuaFilter doubles text v.filter
  queueSize := (v.queueSize.getD 1).toUInt32

def OpcuaMonitoringParameters.toScada (v : OpcuaMonitoringParameters D) :
    Option (ScadaMonitoringParameters D) := do
  let filter ← toScadaFilter doubles text v.filter
  return {
    samplingInterval := some (doubles.fromMillisecondsD v.samplingIntervalMs)
    filter
    queueSize := some v.queueSize.toUInt64 }

def ScadaMonitoredItemCreateRequest.toOpcua (v : ScadaMonitoredItemCreateRequest D) :
    OpcuaMonitoredItemCreateRequest D :=
  let parameters := v.parameters.toOpcua doubles text
  { itemToMonitor := v.itemToMonitor.toOpcua
    monitoringMode := .reporting
    requestedParameters := { parameters with clientHandle := v.clientHandle } }

def OpcuaMonitoredItemCreateRequest.toScada (v : OpcuaMonitoredItemCreateRequest D) :
    Option (ScadaMonitoredItemCreateRequest D) := do
  let parameters ← v.requestedParameters.toScada doubles text
  return {
    itemToMonitor := v.itemToMonitor.toScada
    parameters
    clientHandle := v.requestedParameters.clientHandle }

/-- The parameters that the other side serves: it knows no absent ones, and sizes of 32
bits. -/
def ScadaMonitoringParameters.served (v : ScadaMonitoringParameters D) :
    ScadaMonitoringParameters D :=
  { v with
    samplingInterval := some (v.samplingInterval.getD (doubles.fromMillisecondsD doubles.zero))
    queueSize := some (UInt64.ofNat ((v.queueSize.getD 1).toNat % 2 ^ 32)) }

/-- What the round trip asks of the parameters: a sampling interval whose milliseconds
are exact, and a filter that comes back. -/
structure ScadaMonitoringParameters.Kept (v : ScadaMonitoringParameters D) : Prop where
  samplingInterval : ∀ interval ∈ v.samplingInterval,
    doubles.fromMillisecondsD (doubles.inMillisecondsF interval) = interval
  filter : v.filter.Kept text

variable {doubles text}

theorem toUInt64_toUInt32 (n : UInt64) : n.toUInt32.toUInt64 = UInt64.ofNat (n.toNat % 2 ^ 32) := by
  apply UInt64.toNat_inj.mp
  have hlt : n.toNat % 2 ^ 32 < 2 ^ 64 := by omega
  rw [UInt32.toNat_toUInt64, UInt64.toNat_toUInt32, UInt64.toNat_ofNat_of_lt' hlt]

/-- **Monitored items** come back as they are served. -/
theorem ScadaMonitoredItemCreateRequest.toScada_toOpcua {v : ScadaMonitoredItemCreateRequest D}
    (h : v.parameters.Kept doubles text) :
    (v.toOpcua doubles text).toScada doubles text =
      some { v with parameters := v.parameters.served doubles } := by
  obtain ⟨item, ⟨samplingInterval, filter, queueSize⟩, clientHandle⟩ := v
  have hinterval : doubles.fromMillisecondsD
      (samplingInterval.elim doubles.zero doubles.inMillisecondsF) =
        samplingInterval.getD (doubles.fromMillisecondsD doubles.zero) := by
    cases samplingInterval with
    | none => rfl
    | some interval => exact h.samplingInterval interval rfl
  simp only [toOpcua, OpcuaMonitoredItemCreateRequest.toScada, ScadaMonitoringParameters.toOpcua,
    OpcuaMonitoringParameters.toScada, toScadaFilter_toOpcuaFilter h.filter, hinterval,
    ReadValueId.toScada_toOpcua, toUInt64_toUInt32, Option.bind_eq_bind, Option.bind_some,
    Option.pure_def, ScadaMonitoringParameters.served]

end

/-! ## §7  Round trips -/

/-- **The other side sees the same request.** An item whose value comes back does so,
with some inverse name; a history read does if and only if its times are exact; and a
monitored item does, with an absent sampling interval as zero, an absent queue size as
one and a queue size in 32 bits. -/
theorem request_roundTrip [DecidableEq D] (codec : BinaryCodec)
    (kIdentityMappingRuleTypeDataTypeId : UInt32) (doubles : Doubles D) (text : NodeIdText) :
    (∀ v : ScadaAddNodesItem D (ScadaPayload P),
      v.attributes.ValueKept codec kIdentityMappingRuleTypeDataTypeId →
      ∃ inverseName, (v.toOpcua codec).toScada codec kIdentityMappingRuleTypeDataTypeId =
        { v with attributes := { v.attributes with inverseName } }) ∧
    (∀ v : ScadaHistoryReadRawDetails,
      (v.toOpcua doubles).toScada doubles = v ↔ v.Exact doubles) ∧
    ∀ v : ScadaMonitoredItemCreateRequest D, v.parameters.Kept doubles text →
      (v.toOpcua doubles text).toScada doubles text =
        some { v with parameters := v.parameters.served doubles } :=
  ⟨fun v hvalue => ⟨_, v.toScada_toOpcua hvalue⟩,
    fun _ => ScadaHistoryReadRawDetails.toScada_toOpcua_iff,
    fun _ h => ScadaMonitoredItemCreateRequest.toScada_toOpcua h⟩

/-- Doubles without rounding. -/
def rationals : Doubles ℚ where
  zero := 0
  positive d := decide (0 < d)
  exact d := if d.den = 1 then some d.num else none
  inMillisecondsF d := d.internalValue / 1000
  fromMillisecondsD d := ⟨(d * 1000).num.tdiv (d * 1000).den⟩
  durationMax := 2 ^ 1023
  durationMin := -2 ^ 1023
  inMicroseconds d := (d * 1000).num.tdiv (d * 1000).den
  durationMin_ne_durationMax := by decide +kernel

/-- The texts of numeric ids of the first namespace: `i=2041`. -/
def numericText : NodeIdText where
  toString
    | .numericId id _ => 105 :: 61 :: (Nat.toDigits 10 id.toNat).map fun c => UInt8.ofNat c.toNat
    | _ => []
  fromString
    | 105 :: 61 :: digits =>
        .numericId (digits.foldl (fun n c => 10 * n + (c.toUInt32 - 48)) 0) 0
    | _ => .numericId 0 0

def aliasItem : ScadaAddNodesItem ℚ (ScadaPayload Empty) where
  requestedId := .numericId 1 1
  parentId := .numericId 85 0
  nodeClass := 2
  typeDefinitionId := .numericId 62 0
  attributes :=
    { browseName := ⟨[97], 1⟩, displayName := ⟨[], [97]⟩, dataType := .numericId 6 0
      value := some (.int32 (.scalar 5)), inverseName := ⟨[], [98]⟩ }

def eventRequest (samplingInterval : Option TimeDelta) (queueSize : Option UInt64) :
    ScadaMonitoredItemCreateRequest ℚ where
  itemToMonitor := ⟨.numericId 2253 0, 12⟩
  parameters := ⟨samplingInterval, .event ⟨3, [.numericId 2041 0], [.numericId 85 0]⟩, queueSize⟩
  clientHandle := 55

theorem request_roundTrip_event :
    (∃ inverseName, (aliasItem.toOpcua opcuaBinary).toScada opcuaBinary 15634 =
      { aliasItem with attributes := { aliasItem.attributes with inverseName } }) ∧
    ((eventRequest (some ⟨1250⟩) (some 10)).toOpcua rationals numericText).toScada rationals
        numericText =
      some { eventRequest (some ⟨1250⟩) (some 10) with
        parameters := (eventRequest (some ⟨1250⟩) (some 10)).parameters.served rationals } := by
  obtain ⟨hitem, -, hrequest⟩ :=
    request_roundTrip (P := Empty) opcuaBinary 15634 rationals numericText
  refine ⟨hitem aliasItem ?_, hrequest _ ⟨?_, ?_, ?_⟩⟩
  · rintro value ⟨rfl⟩
    exact ⟨nofun, Variant.kept_of_plain rfl rfl⟩
  · rintro interval ⟨rfl⟩
    decide +kernel
  · intro id hid
    rw [List.mem_singleton.mp hid]
    exact ⟨by decide +kernel, by decide +kernel⟩
  · intro id hid
    rw [List.mem_singleton.mp hid]
    exact ⟨by decide +kernel, by decide +kernel⟩

/-- What is absent is present on the other side, a size above 32 bits is cut off, and an
inverse name is not sent. -/
theorem request_changes :
    ((eventRequest none none).toOpcua rationals numericText).toScada rationals numericText =
        some (eventRequest (some ⟨0⟩) (some 1)) ∧
      eventRequest (some ⟨0⟩) (some 1) ≠ eventRequest none none ∧
      ((eventRequest (some ⟨1250⟩) (some (2 ^ 32))).toOpcua rationals numericText).toScada
          rationals numericText =
        some (eventRequest (some ⟨1250⟩) (some 0)) ∧
      eventRequest (some ⟨1250⟩) (some 0) ≠ eventRequest (some ⟨1250⟩) (some (2 ^ 32)) ∧
      (aliasItem.toOpcua opcuaBinary).toScada opcuaBinary 15634 ≠ aliasItem := by
  refine ⟨?_, ?_, ?_, ?_, ?_⟩ <;> decide +kernel

end ScadaCommon.OpcuaBridge
