import Mathlib.Algebra.Group.Int.Defs
import Mathlib.Algebra.Group.Nat.Defs
import Mathlib.Data.Int.Order.Basic

/-!
# Conversions between the two type universes

The core types and the opcua types are mirrors of each other. The converters
copy fields, but for status codes, times and the payloads of extension objects.

§1 mirrors · §2 status codes · §3 times · §4 extension objects · §5 variants and
data values · §6 events · §7 round trips.
-/

namespace ScadaCommon.OpcuaBridge

/-! ## §1  Mirrors -/

inductive Side where
  | scada
  | opcua

/-- `std::string` and `std::vector<char>`. -/
abbrev Bytes := List UInt8

inductive NodeId (side : Side) where
  | numericId (id : UInt32) (namespaceIndex : UInt16)
  | stringId (id : Bytes) (namespaceIndex : UInt16)
  | opaqueId (id : Bytes) (namespaceIndex : UInt16)
deriving DecidableEq

structure ExpandedNodeId (side : Side) where
  nodeId : NodeId side
  namespaceUri : Bytes := []
  serverIndex : UInt32 := 0
deriving DecidableEq

structure QualifiedName (side : Side) where
  name : Bytes
  namespaceIndex : UInt16
deriving DecidableEq

structure LocalizedText (side : Side) where
  locale : Bytes
  text : List UInt16
deriving DecidableEq

structure Qualifier (side : Side) where
  raw : UInt32
deriving DecidableEq

def NodeId.toOpcua : NodeId .scada → NodeId .opcua
  | .numericId id namespaceIndex => .numericId id namespaceIndex
  | .stringId id namespaceIndex => .stringId id namespaceIndex
  | .opaqueId id namespaceIndex => .opaqueId id namespaceIndex

def NodeId.toScada : NodeId .opcua → NodeId .scada
  | .numericId id namespaceIndex => .numericId id namespaceIndex
  | .stringId id namespaceIndex => .stringId id namespaceIndex
  | .opaqueId id namespaceIndex => .opaqueId id namespaceIndex

@[simp] theorem NodeId.toScada_toOpcua (n : NodeId .scada) : n.toOpcua.toScada = n := by
  cases n <;> rfl

def ExpandedNodeId.toOpcua (e : ExpandedNodeId .scada) : ExpandedNodeId .opcua :=
  ⟨e.nodeId.toOpcua, e.namespaceUri, e.serverIndex⟩

def ExpandedNodeId.toScada (e : ExpandedNodeId .opcua) : ExpandedNodeId .scada :=
  ⟨e.nodeId.toScada, e.namespaceUri, e.serverIndex⟩

@[simp] theorem ExpandedNodeId.toScada_toOpcua (e : ExpandedNodeId .scada) :
    e.toOpcua.toScada = e := by
  unfold toOpcua toScada
  rw [NodeId.toScada_toOpcua]

def QualifiedName.toOpcua (q : QualifiedName .scada) : QualifiedName .opcua :=
  ⟨q.name, q.namespaceIndex⟩

def QualifiedName.toScada (q : QualifiedName .opcua) : QualifiedName .scada :=
  ⟨q.name, q.namespaceIndex⟩

@[simp] theorem QualifiedName.toScada_toOpcua (q : QualifiedName .scada) :
    q.toOpcua.toScada = q := rfl

def LocalizedText.toOpcua (t : LocalizedText .scada) : LocalizedText .opcua :=
  ⟨t.locale, t.text⟩

def LocalizedText.toScada (t : LocalizedText .opcua) : LocalizedText .scada :=
  ⟨t.locale, t.text⟩

@[simp] theorem LocalizedText.toScada_toOpcua (t : LocalizedText .scada) :
    t.toOpcua.toScada = t := rfl

def Qualifier.toOpcua (q : Qualifier .scada) : Qualifier .opcua := ⟨q.raw⟩

def Qualifier.toScada (q : Qualifier .opcua) : Qualifier .scada := ⟨q.raw⟩

@[simp] theorem Qualifier.toScada_toOpcua (q : Qualifier .scada) : q.toOpcua.toScada = q := rfl

/-! ## §2  Status codes -/

/-- `scada::StatusCode`. -/
inductive ScadaStatusCode where
  | good | goodPending | goodSporadic | goodBackup | goodManual | goodSimulated | uncertain
  | uncertainDeviceFlag | uncertainMisconfigured | uncertainDisconnected | uncertainNotUpdated
  | uncertainStateWasNotChanged | bad | badWrongLoginCredentials | badUserIsAlreadyLoggedOn
  | badUnsupportedProtocolVersion | badObjectIsBusy | badWrongNodeId | badWrongDeviceId
  | badDisconnected | badSessionForcedLogoff | badTimeout | badCantDeleteDependentNode
  | badServerWasShutDown | badWrongMethodId | badCantDeleteOwnUser | badDuplicateNodeId
  | badUnsupportedFileVersion | badWrongTypeId | badWrongParentId | badSessionIsLoggedOff
  | badWrongSubscriptionId | badWrongIndex | badIec60870UnknownType | badIec60870UnknownCot
  | badIec60870UnknownDevice | badIec60870UnknownAddress | badIec60870UnknownError
  | badWrongCallArguments | badCantParseString | badTooLongString | badWrongPropertyId
  | badWrongReferenceId | badWrongNodeClass | badWrongAttributeId | badIec61850Error
  | badNothingToDo | badBrowseNameInvalid | badWrongTargetId | badMonitoredItemIdInvalid
  | badMessageNotAvailable | badApplicationSignatureInvalid | badTooManyOperations
  | badTooManyMonitoredItems | badSequenceNumberUnknown | badNoContinuationPoints
  | badTimestampsToReturnInvalid | badViewIdUnknown | badHistoryOperationInvalid
  | badNoSubscription | badUserAccessDenied | badNotSupported
deriving DecidableEq

/-- The part of `opcua::StatusCode` that the bridge names. -/
inductive OpcuaStatusCode where
  | good | goodPending | goodSporadic | goodBackup | goodManual | goodSimulated | uncertain
  | uncertainDeviceFlag | uncertainMisconfigured | uncertainDisconnected | uncertainNotUpdated
  | uncertainStateWasNotChanged | bad | badIdentityTokenRejected | badUserIsAlreadyLoggedOn
  | badProtocolVersionUnsupported | badResourceUnavailable | badNodeIdUnknown | badWrongDeviceId
  | badNoCommunication | badSessionClosed | badTimeout | badCantDeleteDependentNode | badShutdown
  | badMethodInvalid | badCantDeleteOwnUser | badNodeIdExists | badUnsupportedFileVersion
  | badTypeDefinitionInvalid | badParentNodeIdInvalid | badSessionIdInvalid
  | badSubscriptionIdInvalid | badContinuationPointInvalid | badIec60870UnknownType
  | badIec60870UnknownCot | badIec60870UnknownDevice | badIec60870UnknownAddress
  | badIec60870UnknownError | badInvalidArgument | badTypeMismatch | badOutOfRange
  | badWrongPropertyId | badReferenceTypeIdInvalid | badNodeClassInvalid | badAttributeIdInvalid
  | badIec61850Error | badNothingToDo | badBrowseNameInvalid | badTargetNodeIdInvalid
  | badMonitoredItemIdInvalid | badMessageNotAvailable | badApplicationSignatureInvalid
  | badTooManyOperations | badTooManyMonitoredItems | badSequenceNumberUnknown
  | badNoContinuationPoints | badTimestampsToReturnInvalid | badViewIdUnknown
  | badHistoryOperationInvalid | badNoSubscription | badUserAccessDenied | badNotSupported
  | badServiceUnsupported
deriving DecidableEq

/-- `SCADA_OPCUA_STATUS_CODE_MAP`; the codes above it share names and values. -/
def ScadaStatusCode.toOpcua : ScadaStatusCode → OpcuaStatusCode
  | .good => .good
  | .goodPending => .goodPending
  | .goodSporadic => .goodSporadic
  | .goodBackup => .goodBackup
  | .goodManual => .goodManual
  | .goodSimulated => .goodSimulated
  | .uncertain => .uncertain
  | .uncertainDeviceFlag => .uncertainDeviceFlag
  | .uncertainMisconfigured => .uncertainMisconfigured
  | .uncertainDisconnected => .uncertainDisconnected
  | .uncertainNotUpdated => .uncertainNotUpdated
  | .uncertainStateWasNotChanged => .uncertainStateWasNotChanged
  | .bad => .bad
  | .badWrongLoginCredentials => .badIdentityTokenRejected
  | .badUserIsAlreadyLoggedOn => .badUserIsAlreadyLoggedOn
  | .badUnsupportedProtocolVersion => .badProtocolVersionUnsupported
  | .badObjectIsBusy => .badResourceUnavailable
  | .badWrongNodeId => .badNodeIdUnknown
  | .badWrongDeviceId => .badWrongDeviceId
  | .badDisconnected => .badNoCommunication
  | .badSessionForcedLogoff => .badSessionClosed
  | .badTimeout => .badTimeout
  | .badCantDeleteDependentNode => .badCantDeleteDependentNode
  | .badServerWasShutDown => .badShutdown
  | .badWrongMethodId => .badMethodInvalid
  | .badCantDeleteOwnUser => .badCantDeleteOwnUser
  | .badDuplicateNodeId => .badNodeIdExists
  | .badUnsupportedFileVersion => .badUnsupportedFileVersion
  | .badWrongTypeId => .badTypeDefinitionInvalid
  | .badWrongParentId => .badParentNodeIdInvalid
  | .badSessionIsLoggedOff => .badSessionIdInvalid
  | .badWrongSubscriptionId => .badSubscriptionIdInvalid
  | .badWrongIndex => .badContinuationPointInvalid
  | .badIec60870UnknownType => .badIec60870UnknownType
  | .badIec60870UnknownCot => .badIec60870UnknownCot
  | .badIec60870UnknownDevice => .badIec60870UnknownDevice
  | .badIec60870UnknownAddress => .badIec60870UnknownAddress
  | .badIec60870UnknownError => .badIec60870UnknownError
  | .badWrongCallArguments => .badInvalidArgument
  | .badCantParseString => .badTypeMismatch
  | .badTooLongString => .badOutOfRange
  | .badWrongPropertyId => .badWrongPropertyId
  | .badWrongReferenceId => .badReferenceTypeIdInvalid
  | .badWrongNodeClass => .badNodeClassInvalid
  | .badWrongAttributeId => .badAttributeIdInvalid
  | .badIec61850Error => .badIec61850Error
  | .badNothingToDo => .badNothingToDo
  | .badBrowseNameInvalid => .badBrowseNameInvalid
  | .badWrongTargetId => .badTargetNodeIdInvalid
  | .badMonitoredItemIdInvalid => .badMonitoredItemIdInvalid
  | .badMessageNotAvailable => .badMessageNotAvailable
  | .badApplicationSignatureInvalid => .badApplicationSignatureInvalid
  | .badTooManyOperations => .badTooManyOperations
  | .badTooManyMonitoredItems => .badTooManyMonitoredItems
  | .badSequenceNumberUnknown => .badSequenceNumberUnknown
  | .badNoContinuationPoints => .badNoContinuationPoints
  | .badTimestampsToReturnInvalid => .badTimestampsToReturnInvalid
  | .badViewIdUnknown => .badViewIdUnknown
  | .badHistoryOperationInvalid => .badHistoryOperationInvalid
  | .badNoSubscription => .badNoSubscription
  | .badUserAccessDenied => .badUserAccessDenied
  | .badNotSupported => .badNotSupported

def OpcuaStatusCode.toScada : OpcuaStatusCode → ScadaStatusCode
  | .good => .good
  | .goodPending => .goodPending
  | .goodSporadic => .goodSporadic
  | .goodBackup => .goodBackup
  | .goodManual => .goodManual
  | .goodSimulated => .goodSimulated
  | .uncertain => .uncertain
  | .uncertainDeviceFlag => .uncertainDeviceFlag
  | .uncertainMisconfigured => .uncertainMisconfigured
  | .uncertainDisconnected => .uncertainDisconnected
  | .uncertainNotUpdated => .uncertainNotUpdated
  | .uncertainStateWasNotChanged => .uncertainStateWasNotChanged
  | .bad => .bad
  | .badIdentityTokenRejected => .badWrongLoginCredentials
  | .badUserIsAlreadyLoggedOn => .badUserIsAlreadyLoggedOn
  | .badProtocolVersionUnsupported => .badUnsupportedProtocolVersion
  | .badResourceUnavailable => .badObjectIsBusy
  | .badNodeIdUnknown => .badWrongNodeId
  | .badWrongDeviceId => .badWrongDeviceId
  | .badNoCommunication => .badDisconnected
  | .badSessionClosed => .badSessionForcedLogoff
  | .badTimeout => .badTimeout
  | .badCantDeleteDependentNode => .badCantDeleteDependentNode
  | .badShutdown => .badServerWasShutDown
  | .badMethodInvalid => .badWrongMethodId
  | .badCantDeleteOwnUser => .badCantDeleteOwnUser
  | .badNodeIdExists => .badDuplicateNodeId
  | .badUnsupportedFileVersion => .badUnsupportedFileVersion
  | .badTypeDefinitionInvalid => .badWrongTypeId
  | .badParentNodeIdInvalid => .badWrongParentId
  | .badSessionIdInvalid => .badSessionIsLoggedOff
  | .badSubscriptionIdInvalid => .badWrongSubscriptionId
  | .badContinuationPointInvalid => .badWrongIndex
  | .badIec60870UnknownType => .badIec60870UnknownType
  | .badIec60870UnknownCot => .badIec60870UnknownCot
  | .badIec60870UnknownDevice => .badIec60870UnknownDevice
  | .badIec60870UnknownAddress => .badIec60870UnknownAddress
  | .badIec60870UnknownError => .badIec60870UnknownError
  | .badInvalidArgument => .badWrongCallArguments
  | .badTypeMismatch => .badCantParseString
  | .badOutOfRange => .badTooLongString
  | .badWrongPropertyId => .badWrongPropertyId
  | .badReferenceTypeIdInvalid => .badWrongReferenceId
  | .badNodeClassInvalid => .badWrongNodeClass
  | .badAttributeIdInvalid => .badWrongAttributeId
  | .badIec61850Error => .badIec61850Error
  | .badNothingToDo => .badNothingToDo
  | .badBrowseNameInvalid => .badBrowseNameInvalid
  | .badTargetNodeIdInvalid => .badWrongTargetId
  | .badMonitoredItemIdInvalid => .badMonitoredItemIdInvalid
  | .badMessageNotAvailable => .badMessageNotAvailable
  | .badApplicationSignatureInvalid => .badApplicationSignatureInvalid
  | .badTooManyOperations => .badTooManyOperations
  | .badTooManyMonitoredItems => .badTooManyMonitoredItems
  | .badSequenceNumberUnknown => .badSequenceNumberUnknown
  | .badNoContinuationPoints => .badNoContinuationPoints
  | .badTimestampsToReturnInvalid => .badTimestampsToReturnInvalid
  | .badViewIdUnknown => .badViewIdUnknown
  | .badHistoryOperationInvalid => .badHistoryOperationInvalid
  | .badNoSubscription => .badNoSubscription
  | .badUserAccessDenied => .badUserAccessDenied
  | .badNotSupported => .badNotSupported
  | .badServiceUnsupported => .badNotSupported

/-- No two core codes share an opcua code. -/
@[simp] theorem ScadaStatusCode.toScada_toOpcua (c : ScadaStatusCode) : c.toOpcua.toScada = c := by
  cases c <;> rfl

/-! ## §3  Times -/

/-- Microseconds on the side of the core, 100 ns ticks on the other side. -/
structure DateTime (side : Side) where
  internalValue : ℤ
deriving DecidableEq

namespace DateTime

def int64Max : ℤ := 2 ^ 63 - 1
def int64Min : ℤ := -2 ^ 63
def kTicksPerMicrosecond : ℤ := 10

def max (side : Side) : DateTime side := ⟨int64Max⟩
def min (side : Side) : DateTime side := ⟨int64Min⟩

/-- Divisions truncate. -/
def toOpcua (t : DateTime .scada) : DateTime .opcua :=
  if t = max .scada then max .opcua
  else if t = min .scada then min .opcua
  else if t.internalValue > int64Max.tdiv kTicksPerMicrosecond then max .opcua
  else if t.internalValue < int64Min.tdiv kTicksPerMicrosecond then min .opcua
  else ⟨t.internalValue * kTicksPerMicrosecond⟩

def toScada (t : DateTime .opcua) : DateTime .scada :=
  if t = max .opcua then max .scada
  else if t = min .opcua then min .scada
  else ⟨t.internalValue.tdiv kTicksPerMicrosecond⟩

/-- The times whose ticks are an `int64_t`, and the two ends of time. -/
def Convertible (t : DateTime .scada) : Prop :=
  t = max .scada ∨ t = min .scada ∨
    (int64Min.tdiv kTicksPerMicrosecond ≤ t.internalValue ∧
      t.internalValue ≤ int64Max.tdiv kTicksPerMicrosecond)

@[simp] theorem toScada_max : (max .opcua).toScada = max .scada := if_pos rfl

@[simp] theorem toScada_min : (min .opcua).toScada = min .scada := rfl

/-- A time outside the range becomes an end of time. -/
theorem toScada_toOpcua_iff (t : DateTime .scada) : t.toOpcua.toScada = t ↔ t.Convertible := by
  unfold toOpcua Convertible
  by_cases hmax : t = max .scada
  · simp [hmax]
  by_cases hmin : t = min .scada
  · rw [if_neg hmax, if_pos hmin, toScada_min]
    exact iff_of_true hmin.symm (Or.inr (Or.inl hmin))
  simp only [hmax, hmin, if_false, false_or]
  split
  · rename_i hover
    rw [toScada_max]
    exact iff_of_false (fun h => hmax h.symm) (fun h => absurd h.2 (not_le.mpr hover))
  · rename_i hover
    split
    · rename_i hunder
      rw [toScada_min]
      exact iff_of_false (fun h => hmin h.symm) (fun h => absurd h.1 (not_le.mpr hunder))
    · rename_i hunder
      refine iff_of_true ?_ ⟨not_lt.mp hunder, not_lt.mp hover⟩
      -- No multiple of ten is an end of time.
      have hnotMax : (⟨t.internalValue * kTicksPerMicrosecond⟩ : DateTime .opcua) ≠ max .opcua := by
        unfold max int64Max kTicksPerMicrosecond
        intro h
        have := congrArg DateTime.internalValue h
        simp only at this
        omega
      have hnotMin : (⟨t.internalValue * kTicksPerMicrosecond⟩ : DateTime .opcua) ≠ min .opcua := by
        unfold min int64Min kTicksPerMicrosecond
        intro h
        have := congrArg DateTime.internalValue h
        simp only at this
        omega
      unfold toScada
      rw [if_neg hnotMax, if_neg hnotMin]
      unfold kTicksPerMicrosecond
      rw [Int.mul_tdiv_cancel _ (by decide)]

end DateTime

/-! ## §4  Extension objects -/

/-- The underlying value of the enumeration. -/
abbrev IdentityCriteriaType := Int32

structure IdentityMappingRule where
  criteriaType : IdentityCriteriaType
  criteria : Bytes
deriving DecidableEq

structure RolePermissionType where
  roleId : NodeId .scada
  permissions : UInt32
deriving DecidableEq

/-- What the `std::any` of a core extension object holds; `P` stands for the
types that the bridge does not know. -/
inductive ScadaPayload (P : Type) where
  | empty
  | rolePermission (role : RolePermissionType)
  | identityMappingRule (rule : IdentityMappingRule)
  | other (payload : P)
deriving DecidableEq

inductive OpcuaPayload where
  | empty
  | byteString (body : Bytes)
deriving DecidableEq

structure ExtensionObject (side : Side) (A : Type) where
  dataTypeId : ExpandedNodeId side
  value : A
deriving DecidableEq

/-- The binary encoder appends to a body, the decoder takes from the front of it. -/
structure BinaryCodec where
  encodeNodeId : NodeId .opcua → Bytes
  encodeUInt32 : UInt32 → Bytes
  encodeInt32 : Int32 → Bytes
  encodeString : Bytes → Bytes
  decodeInt32 : Bytes → Option (Int32 × Bytes)
  decodeString : Bytes → Option (Bytes × Bytes)

/-- The decoder is inverse to the encoder on the parts of a rule. -/
structure BinaryCodec.Inverse (codec : BinaryCodec) (rule : IdentityMappingRule) : Prop where
  int32 : ∀ rest, codec.decodeInt32 (codec.encodeInt32 rule.criteriaType ++ rest) =
    some (rule.criteriaType, rest)
  string : ∀ rest, codec.decodeString (codec.encodeString rule.criteria ++ rest) =
    some (rule.criteria, rest)

/-- `RolePermissionType_Encoding_DefaultBinary`. -/
def rolePermissionTypeDefaultBinaryId (side : Side) : NodeId side := .numericId 128 0

/-- `kIdentityMappingRuleTypeDefaultBinaryId`. -/
def identityMappingRuleTypeDefaultBinaryId (side : Side) : NodeId side := .numericId 15736 0

variable {D P : Type}

section

variable (codec : BinaryCodec) (kIdentityMappingRuleTypeDataTypeId : UInt32)

def ExtensionObject.toOpcua (e : ExtensionObject .scada (ScadaPayload P)) :
    ExtensionObject .opcua OpcuaPayload :=
  match e.value with
  | .rolePermission role =>
      { dataTypeId := ⟨rolePermissionTypeDefaultBinaryId .opcua, [], 0⟩
        value := .byteString
          (codec.encodeNodeId role.roleId.toOpcua ++ codec.encodeUInt32 role.permissions) }
  | .identityMappingRule rule =>
      { dataTypeId := ⟨identityMappingRuleTypeDefaultBinaryId .opcua, [], 0⟩
        value := .byteString
          (codec.encodeInt32 rule.criteriaType ++ codec.encodeString rule.criteria) }
  | .empty | .other _ => { dataTypeId := e.dataTypeId.toOpcua, value := .empty }

/-- The data type of the rules that `ToScada` makes. -/
def identityMappingRuleTypeId : ExpandedNodeId .scada :=
  ⟨.numericId kIdentityMappingRuleTypeDataTypeId 0, [], 0⟩

def decodeRule (body : Bytes) : Option IdentityMappingRule := do
  let (criteriaType, rest) ← codec.decodeInt32 body
  let (criteria, _) ← codec.decodeString rest
  return { criteriaType, criteria }

def ExtensionObject.toScada (e : ExtensionObject .opcua OpcuaPayload) :
    ExtensionObject .scada (ScadaPayload P) :=
  let untyped := { dataTypeId := e.dataTypeId.toScada, value := .empty }
  if e.dataTypeId.nodeId = identityMappingRuleTypeDefaultBinaryId .opcua then
    match e.value with
    | .byteString body =>
        match decodeRule codec body with
        | some rule =>
            { dataTypeId := identityMappingRuleTypeId kIdentityMappingRuleTypeDataTypeId
              value := .identityMappingRule rule }
        | none => untyped
    | .empty => untyped
  else untyped

/-- The extension objects that the bridge gives back: those without a payload,
and rules of the data type that rules have. -/
def ExtensionObject.Kept (e : ExtensionObject .scada (ScadaPayload P)) : Prop :=
  match e.value with
  | .empty => True
  | .identityMappingRule _ =>
      e.dataTypeId = identityMappingRuleTypeId kIdentityMappingRuleTypeDataTypeId
  | .rolePermission _ | .other _ => False

variable {codec kIdentityMappingRuleTypeDataTypeId}

theorem decodeRule_encode {rule : IdentityMappingRule} (h : codec.Inverse rule) :
    decodeRule codec (codec.encodeInt32 rule.criteriaType ++ codec.encodeString rule.criteria) =
      some rule := by
  have hstring := h.string []
  rw [List.append_nil] at hstring
  unfold decodeRule
  rw [h.int32, Option.bind_eq_bind, Option.bind_some]
  simp only [hstring, Option.bind_eq_bind, Option.bind_some, Option.pure_def]

/-- **Extension objects.** A role permission is encoded and never decoded. -/
theorem ExtensionObject.toScada_toOpcua_iff {e : ExtensionObject .scada (ScadaPayload P)}
    (h : ∀ rule, e.value = .identityMappingRule rule → codec.Inverse rule) :
    (e.toOpcua codec).toScada codec kIdentityMappingRuleTypeDataTypeId = e ↔
      e.Kept kIdentityMappingRuleTypeDataTypeId := by
  obtain ⟨dataTypeId, value⟩ := e
  unfold Kept toOpcua toScada
  cases value with
  | empty =>
      refine iff_of_true ?_ trivial
      simp
  | rolePermission role =>
      refine iff_of_false ?_ id
      simp [rolePermissionTypeDefaultBinaryId, identityMappingRuleTypeDefaultBinaryId]
  | identityMappingRule rule =>
      simp only [if_true, decodeRule_encode (h rule rfl), ExtensionObject.mk.injEq, and_true]
      exact eq_comm
  | other payload =>
      refine iff_of_false ?_ id
      simp

end

/-! ## §5  Variants and data values -/

/-- A scalar or an array of one type. -/
inductive Shape (α : Type) where
  | scalar (value : α)
  | array (values : List α)
deriving DecidableEq

def Shape.elements {α : Type} : Shape α → List α
  | .scalar value => [value]
  | .array values => values

section

variable {α β : Type}

def toOpcuaSame : Shape α → Shape α
  | .array values => .array values
  | .scalar value => .scalar value

def toScadaSame : Shape α → Shape α
  | .array values => .array values
  | .scalar value => .scalar value

/-- `ToOpcuaConv`, with `ToOpcua` of the elements. -/
def toOpcuaConv (toOpcua : α → β) : Shape α → Shape β
  | .array values => .array (values.map toOpcua)
  | .scalar value => .scalar (toOpcua value)

def toScadaConv (toScada : β → α) : Shape β → Shape α
  | .array values => .array (values.map toScada)
  | .scalar value => .scalar (toScada value)

@[simp] theorem toScadaSame_toOpcuaSame (shape : Shape α) :
    toScadaSame (toOpcuaSame shape) = shape := by
  cases shape <;> rfl

/-- A shape comes back when its elements do. -/
theorem toScadaConv_toOpcuaConv_iff {toOpcua : α → β} {toScada : β → α} {shape : Shape α} :
    toScadaConv toScada (toOpcuaConv toOpcua shape) = shape ↔
      ∀ value ∈ shape.elements, toScada (toOpcua value) = value := by
  cases shape with
  | scalar value => simp [toScadaConv, toOpcuaConv, Shape.elements]
  | array values =>
      unfold toScadaConv toOpcuaConv Shape.elements
      rw [Shape.array.injEq, List.map_map]
      constructor
      · exact fun h => List.map_inj_left.mp (h.trans (List.map_id values).symm)
      · exact fun h => (List.map_inj_left.mpr h).trans (List.map_id values)

theorem toScadaConv_toOpcuaConv {toOpcua : α → β} {toScada : β → α}
    (h : ∀ value, toScada (toOpcua value) = value) (shape : Shape α) :
    toScadaConv toScada (toOpcuaConv toOpcua shape) = shape :=
  toScadaConv_toOpcuaConv_iff.mpr fun value _ => h value

end

/-- `D` stands for doubles, `A` for the payloads of extension objects. -/
inductive Variant (side : Side) (D A : Type) where
  | empty
  | bool (value : Shape Bool)
  | int8 (value : Shape Int8)
  | uint8 (value : Shape UInt8)
  | int16 (value : Shape Int16)
  | uint16 (value : Shape UInt16)
  | int32 (value : Shape Int32)
  | uint32 (value : Shape UInt32)
  | int64 (value : Shape Int64)
  | uint64 (value : Shape UInt64)
  | double (value : Shape D)
  | byteString (value : Shape Bytes)
  | string (value : Shape Bytes)
  | localizedText (value : Shape (LocalizedText side))
  | qualifiedName (value : Shape (QualifiedName side))
  | nodeId (value : Shape (NodeId side))
  | expandedNodeId (value : Shape (ExpandedNodeId side))
  | extensionObject (value : Shape (ExtensionObject side A))
  /-- There is no array alternative. -/
  | dateTime (value : DateTime side)
deriving DecidableEq

namespace Variant

def extensionObjects {side : Side} {A : Type} :
    Variant side D A → List (ExtensionObject side A)
  | .extensionObject value => value.elements
  | _ => []

def dateTimes {side : Side} {A : Type} : Variant side D A → List (DateTime side)
  | .dateTime value => [value]
  | _ => []

variable (codec : BinaryCodec) (kIdentityMappingRuleTypeDataTypeId : UInt32)

def toOpcua : Variant .scada D (ScadaPayload P) → Variant .opcua D OpcuaPayload
  | .empty => .empty
  | .bool value => .bool (toOpcuaSame value)
  | .int8 value => .int8 (toOpcuaSame value)
  | .uint8 value => .uint8 (toOpcuaSame value)
  | .int16 value => .int16 (toOpcuaSame value)
  | .uint16 value => .uint16 (toOpcuaSame value)
  | .int32 value => .int32 (toOpcuaSame value)
  | .uint32 value => .uint32 (toOpcuaSame value)
  | .int64 value => .int64 (toOpcuaSame value)
  | .uint64 value => .uint64 (toOpcuaSame value)
  | .double value => .double (toOpcuaSame value)
  | .byteString value => .byteString (toOpcuaSame value)
  | .string value => .string (toOpcuaSame value)
  | .localizedText value => .localizedText (toOpcuaConv (·.toOpcua) value)
  | .qualifiedName value => .qualifiedName (toOpcuaConv (·.toOpcua) value)
  | .nodeId value => .nodeId (toOpcuaConv (·.toOpcua) value)
  | .expandedNodeId value => .expandedNodeId (toOpcuaConv (·.toOpcua) value)
  | .extensionObject value => .extensionObject (toOpcuaConv (·.toOpcua codec) value)
  | .dateTime value => .dateTime value.toOpcua

def toScada : Variant .opcua D OpcuaPayload → Variant .scada D (ScadaPayload P)
  | .empty => .empty
  | .bool value => .bool (toScadaSame value)
  | .int8 value => .int8 (toScadaSame value)
  | .uint8 value => .uint8 (toScadaSame value)
  | .int16 value => .int16 (toScadaSame value)
  | .uint16 value => .uint16 (toScadaSame value)
  | .int32 value => .int32 (toScadaSame value)
  | .uint32 value => .uint32 (toScadaSame value)
  | .int64 value => .int64 (toScadaSame value)
  | .uint64 value => .uint64 (toScadaSame value)
  | .double value => .double (toScadaSame value)
  | .byteString value => .byteString (toScadaSame value)
  | .string value => .string (toScadaSame value)
  | .localizedText value => .localizedText (toScadaConv (·.toScada) value)
  | .qualifiedName value => .qualifiedName (toScadaConv (·.toScada) value)
  | .nodeId value => .nodeId (toScadaConv (·.toScada) value)
  | .expandedNodeId value => .expandedNodeId (toScadaConv (·.toScada) value)
  | .extensionObject value => .extensionObject (toScadaConv (·.toScada codec kIdentityMappingRuleTypeDataTypeId) value)
  | .dateTime value => .dateTime value.toScada

/-- What the round trip asks of a variant. -/
def Kept (v : Variant .scada D (ScadaPayload P)) : Prop :=
  (∀ e ∈ v.extensionObjects, e.Kept kIdentityMappingRuleTypeDataTypeId) ∧
    ∀ t ∈ v.dateTimes, t.Convertible

variable {codec kIdentityMappingRuleTypeDataTypeId}

/-- The decoder is inverse to the encoder on the rules of a variant. -/
def CodecInverse (codec : BinaryCodec) (v : Variant .scada D (ScadaPayload P)) : Prop :=
  ∀ e ∈ v.extensionObjects, ∀ rule, e.value = .identityMappingRule rule → codec.Inverse rule

theorem kept_of_plain {v : Variant .scada D (ScadaPayload P)} (hobjects : v.extensionObjects = [])
    (htimes : v.dateTimes = []) : v.Kept kIdentityMappingRuleTypeDataTypeId := by
  unfold Kept
  rw [hobjects, htimes]
  exact ⟨List.forall_mem_nil _, List.forall_mem_nil _⟩

/-- **Variants.** Every alternative but those of extension objects and times
comes back, in both shapes. -/
theorem toScada_toOpcua_iff {v : Variant .scada D (ScadaPayload P)} (h : v.CodecInverse codec) :
    (v.toOpcua codec).toScada codec kIdentityMappingRuleTypeDataTypeId = v ↔
      v.Kept kIdentityMappingRuleTypeDataTypeId := by
  cases v with
  | dateTime value =>
      unfold Kept toOpcua toScada dateTimes extensionObjects
      simp [DateTime.toScada_toOpcua_iff]
  | extensionObject value =>
      unfold Kept toOpcua toScada dateTimes extensionObjects
      rw [extensionObject.injEq, toScadaConv_toOpcuaConv_iff]
      simp only [List.not_mem_nil, false_imp_iff, implies_true, and_true]
      refine forall₂_congr fun e he => ?_
      exact ExtensionObject.toScada_toOpcua_iff (h e he)
  | localizedText value =>
      refine iff_of_true ?_ (kept_of_plain rfl rfl)
      exact congrArg localizedText (toScadaConv_toOpcuaConv LocalizedText.toScada_toOpcua value)
  | qualifiedName value =>
      refine iff_of_true ?_ (kept_of_plain rfl rfl)
      exact congrArg qualifiedName (toScadaConv_toOpcuaConv QualifiedName.toScada_toOpcua value)
  | nodeId value =>
      refine iff_of_true ?_ (kept_of_plain rfl rfl)
      exact congrArg nodeId (toScadaConv_toOpcuaConv NodeId.toScada_toOpcua value)
  | expandedNodeId value =>
      refine iff_of_true ?_ (kept_of_plain rfl rfl)
      exact congrArg expandedNodeId (toScadaConv_toOpcuaConv ExpandedNodeId.toScada_toOpcua value)
  | empty => exact iff_of_true rfl (kept_of_plain rfl rfl)
  | _ value =>
      -- The types that are the same on both sides.
      refine iff_of_true ?_ (kept_of_plain rfl rfl)
      simp only [toOpcua, toScada, toScadaSame_toOpcuaSame]

end Variant

structure DataValue (side : Side) (D A S : Type) where
  value : Variant side D A
  qualifier : Qualifier side
  sourceTimestamp : DateTime side
  serverTimestamp : DateTime side
  statusCode : S
deriving DecidableEq

namespace DataValue

variable (codec : BinaryCodec) (kIdentityMappingRuleTypeDataTypeId : UInt32)

def toOpcua (d : DataValue .scada D (ScadaPayload P) ScadaStatusCode) :
    DataValue .opcua D OpcuaPayload OpcuaStatusCode where
  value := d.value.toOpcua codec
  qualifier := d.qualifier.toOpcua
  sourceTimestamp := d.sourceTimestamp.toOpcua
  serverTimestamp := d.serverTimestamp.toOpcua
  statusCode := d.statusCode.toOpcua

def toScada (d : DataValue .opcua D OpcuaPayload OpcuaStatusCode) :
    DataValue .scada D (ScadaPayload P) ScadaStatusCode where
  value := d.value.toScada codec kIdentityMappingRuleTypeDataTypeId
  qualifier := d.qualifier.toScada
  sourceTimestamp := d.sourceTimestamp.toScada
  serverTimestamp := d.serverTimestamp.toScada
  statusCode := d.statusCode.toScada

variable {codec kIdentityMappingRuleTypeDataTypeId}

theorem toScada_toOpcua_iff {d : DataValue .scada D (ScadaPayload P) ScadaStatusCode}
    (h : d.value.CodecInverse codec) :
    (d.toOpcua codec).toScada codec kIdentityMappingRuleTypeDataTypeId = d ↔
      d.value.Kept kIdentityMappingRuleTypeDataTypeId ∧
        d.sourceTimestamp.Convertible ∧ d.serverTimestamp.Convertible := by
  obtain ⟨value, qualifier, sourceTimestamp, serverTimestamp, statusCode⟩ := d
  unfold toOpcua toScada
  simp only [DataValue.mk.injEq, Variant.toScada_toOpcua_iff h, Qualifier.toScada_toOpcua,
    DateTime.toScada_toOpcua_iff, ScadaStatusCode.toScada_toOpcua, true_and, and_true]

end DataValue

/-! ## §6  Events -/

structure Event (side : Side) (D A : Type) where
  eventTypeId : NodeId side
  eventId : UInt64
  time : DateTime side
  receiveTime : DateTime side
  changeMask : UInt32
  severity : UInt32
  sourceNodeId : NodeId side
  sourceName : Bytes
  userId : NodeId side
  value : Variant side D A
  qualifier : Qualifier side
  message : LocalizedText side
  acked : Bool
  acknowledgedTime : DateTime side
  acknowledgedUserId : NodeId side
deriving DecidableEq

namespace Event

variable (codec : BinaryCodec) (kIdentityMappingRuleTypeDataTypeId : UInt32)

def toOpcua (v : Event .scada D (ScadaPayload P)) : Event .opcua D OpcuaPayload where
  eventTypeId := v.eventTypeId.toOpcua
  eventId := v.eventId
  time := v.time.toOpcua
  receiveTime := v.receiveTime.toOpcua
  changeMask := v.changeMask
  severity := v.severity
  sourceNodeId := v.sourceNodeId.toOpcua
  sourceName := v.sourceName
  userId := v.userId.toOpcua
  value := v.value.toOpcua codec
  qualifier := v.qualifier.toOpcua
  message := v.message.toOpcua
  acked := v.acked
  acknowledgedTime := v.acknowledgedTime.toOpcua
  acknowledgedUserId := v.acknowledgedUserId.toOpcua

def toScada (v : Event .opcua D OpcuaPayload) : Event .scada D (ScadaPayload P) where
  eventTypeId := v.eventTypeId.toScada
  eventId := v.eventId
  time := v.time.toScada
  receiveTime := v.receiveTime.toScada
  changeMask := v.changeMask
  severity := v.severity
  sourceNodeId := v.sourceNodeId.toScada
  sourceName := v.sourceName
  userId := v.userId.toScada
  value := v.value.toScada codec kIdentityMappingRuleTypeDataTypeId
  qualifier := v.qualifier.toScada
  message := v.message.toScada
  acked := v.acked
  acknowledgedTime := v.acknowledgedTime.toScada
  acknowledgedUserId := v.acknowledgedUserId.toScada

variable {codec kIdentityMappingRuleTypeDataTypeId}

theorem toScada_toOpcua_iff {v : Event .scada D (ScadaPayload P)}
    (h : v.value.CodecInverse codec) :
    (v.toOpcua codec).toScada codec kIdentityMappingRuleTypeDataTypeId = v ↔
      v.value.Kept kIdentityMappingRuleTypeDataTypeId ∧ v.time.Convertible ∧
        v.receiveTime.Convertible ∧ v.acknowledgedTime.Convertible := by
  obtain ⟨⟩ := v
  unfold toOpcua toScada
  simp only [Event.mk.injEq, Variant.toScada_toOpcua_iff h, Qualifier.toScada_toOpcua,
    NodeId.toScada_toOpcua, LocalizedText.toScada_toOpcua, DateTime.toScada_toOpcua_iff,
    true_and, and_true]
  constructor
  · rintro ⟨htime, hreceive, hkept, hacknowledged⟩
    exact ⟨hkept, htime, hreceive, hacknowledged⟩
  · rintro ⟨hkept, htime, hreceive, hacknowledged⟩
    exact ⟨htime, hreceive, hkept, hacknowledged⟩

end Event

/-! ## §7  Round trips -/

/-- **Round trips.** A value comes back exactly when its times are convertible
and its extension objects are kept: no payload is lost, and none is a role
permission. -/
theorem roundTrip_iff (codec : BinaryCodec) (kIdentityMappingRuleTypeDataTypeId : UInt32) :
    (∀ e : ExtensionObject .scada (ScadaPayload P),
      (∀ rule, e.value = .identityMappingRule rule → codec.Inverse rule) →
      ((e.toOpcua codec).toScada codec kIdentityMappingRuleTypeDataTypeId = e ↔
        e.Kept kIdentityMappingRuleTypeDataTypeId)) ∧
    (∀ v : Variant .scada D (ScadaPayload P), v.CodecInverse codec →
      ((v.toOpcua codec).toScada codec kIdentityMappingRuleTypeDataTypeId = v ↔
        v.Kept kIdentityMappingRuleTypeDataTypeId)) ∧
    (∀ d : DataValue .scada D (ScadaPayload P) ScadaStatusCode, d.value.CodecInverse codec →
      ((d.toOpcua codec).toScada codec kIdentityMappingRuleTypeDataTypeId = d ↔
        d.value.Kept kIdentityMappingRuleTypeDataTypeId ∧
          d.sourceTimestamp.Convertible ∧ d.serverTimestamp.Convertible)) ∧
    ∀ v : Event .scada D (ScadaPayload P), v.value.CodecInverse codec →
      ((v.toOpcua codec).toScada codec kIdentityMappingRuleTypeDataTypeId = v ↔
        v.value.Kept kIdentityMappingRuleTypeDataTypeId ∧ v.time.Convertible ∧
          v.receiveTime.Convertible ∧ v.acknowledgedTime.Convertible) :=
  ⟨fun _ h => ExtensionObject.toScada_toOpcua_iff h, fun _ h => Variant.toScada_toOpcua_iff h,
    fun _ h => DataValue.toScada_toOpcua_iff h, fun _ h => Event.toScada_toOpcua_iff h⟩

/-! The binary encoding, for a run. -/

/-- The low bytes of a number, the lowest first. -/
def littleEndian : ℕ → ℕ → Bytes
  | 0, _ => []
  | count + 1, n => UInt8.ofNat n :: littleEndian count (n / 256)

def readLittleEndian : ℕ → Bytes → Option (ℕ × Bytes)
  | 0, bytes => some (0, bytes)
  | _ + 1, [] => none
  | count + 1, byte :: bytes =>
      (readLittleEndian count bytes).map fun result => (byte.toNat + 256 * result.1, result.2)

theorem readLittleEndian_littleEndian (count n : ℕ) (h : n < 256 ^ count) (rest : Bytes) :
    readLittleEndian count (littleEndian count n ++ rest) = some (n, rest) := by
  induction count generalizing n with
  | zero =>
      obtain rfl : n = 0 := by simpa using h
      rfl
  | succ count ih =>
      have hdiv : n / 256 < 256 ^ count := by
        rw [Nat.pow_succ] at h
        omega
      unfold littleEndian readLittleEndian
      rw [List.cons_append]
      simp only [ih (n / 256) hdiv, Option.map_some, Option.some_inj, Prod.mk.injEq, and_true]
      rw [UInt8.toNat_ofNat']
      omega

/-- The OPC UA binary encoding of the types that the payloads have. -/
def opcuaBinary : BinaryCodec where
  encodeNodeId
    | .numericId id namespaceIndex =>
        if namespaceIndex = 0 ∧ id < 256 then 0 :: littleEndian 1 id.toNat
        else if namespaceIndex < 256 ∧ id < 65536 then
          1 :: (littleEndian 1 namespaceIndex.toNat ++ littleEndian 2 id.toNat)
        else 2 :: (littleEndian 2 namespaceIndex.toNat ++ littleEndian 4 id.toNat)
    | .stringId id namespaceIndex =>
        3 :: (littleEndian 2 namespaceIndex.toNat ++ littleEndian 4 id.length ++ id)
    | .opaqueId id namespaceIndex =>
        5 :: (littleEndian 2 namespaceIndex.toNat ++ littleEndian 4 id.length ++ id)
  encodeUInt32 n := littleEndian 4 n.toNat
  encodeInt32 n := littleEndian 4 n.toUInt32.toNat
  encodeString text := littleEndian 4 text.length ++ text
  decodeInt32 body := (readLittleEndian 4 body).map fun result =>
    (UInt32.toInt32 (UInt32.ofNat result.1), result.2)
  decodeString body := (readLittleEndian 4 body).bind fun result =>
    if result.1 ≤ result.2.length then
      some (result.2.take result.1, result.2.drop result.1)
    else none

theorem opcuaBinary_inverse {rule : IdentityMappingRule} (h : rule.criteria.length < 2 ^ 31) :
    opcuaBinary.Inverse rule where
  int32 rest := by
    have hn := rule.criteriaType.toUInt32.toNat_lt
    unfold opcuaBinary
    simp only
    rw [readLittleEndian_littleEndian 4 _ (by omega), Option.map_some, UInt32.ofNat_toNat]
    rfl
  string rest := by
    unfold opcuaBinary
    simp only
    rw [List.append_assoc, readLittleEndian_littleEndian 4 _ (by omega)]
    simp

/-- A rule for the user `a`. -/
def userRule : ExtensionObject .scada (ScadaPayload Empty) where
  dataTypeId := identityMappingRuleTypeId 15634
  value := .identityMappingRule { criteriaType := 1, criteria := [97] }

/-- A data value with an array of rules comes back. -/
theorem roundTrip_iff_userRule :
    let d : DataValue .scada UInt64 (ScadaPayload Empty) ScadaStatusCode :=
      { value := .extensionObject (.array [userRule, userRule]), qualifier := ⟨0⟩,
        sourceTimestamp := ⟨10⟩, serverTimestamp := .max .scada,
        statusCode := .badWrongNodeId }
    (d.toOpcua opcuaBinary).toScada opcuaBinary 15634 = d := by
  intro d
  have hinverse : d.value.CodecInverse opcuaBinary := by
    intro e he rule hrule
    obtain rfl : e = userRule := by simpa [d, Variant.extensionObjects, Shape.elements] using he
    obtain rfl := ScadaPayload.identityMappingRule.inj hrule
    exact opcuaBinary_inverse (by decide)
  refine ((roundTrip_iff opcuaBinary 15634).2.2.1 d hinverse).mpr ⟨⟨?_, ?_⟩, ?_, ?_⟩
  · intro e he
    obtain rfl : e = userRule := by simpa [d, Variant.extensionObjects, Shape.elements] using he
    rfl
  · exact List.forall_mem_nil _
  · exact Or.inr (Or.inr (by decide))
  · exact Or.inl rfl

/-- **A role permission does not come back.** The operator's permissions to read
and to write become an object without a payload, with the id of an encoding for
its data type. -/
theorem rolePermission_is_lost :
    let e : ExtensionObject .scada (ScadaPayload Empty) :=
      { dataTypeId := ⟨.numericId 96 0, [], 0⟩,
        value := .rolePermission { roleId := .numericId 15680 0, permissions := 3 } }
    (e.toOpcua opcuaBinary).toScada opcuaBinary 15634 =
        ({ dataTypeId := ⟨.numericId 128 0, [], 0⟩, value := .empty } :
          ExtensionObject .scada (ScadaPayload Empty)) ∧
      (e.toOpcua opcuaBinary).toScada opcuaBinary 15634 ≠ e := by
  refine ⟨rfl, ?_⟩
  decide

end ScadaCommon.OpcuaBridge
