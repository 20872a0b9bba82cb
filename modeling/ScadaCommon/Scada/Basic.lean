import Mathlib.Algebra.Group.Int.Defs
import Mathlib.Algebra.Group.Nat.Defs
import Mathlib.Data.Finset.Card
import Mathlib.Data.Int.Order.Basic
import Mathlib.Data.List.TakeWhile

/-!
# The scada vocabulary

The identifiers and times the components share. They come from the core
library of the repository, so only what the modelled code relies on is stated.
-/

namespace ScadaCommon

/-- `scada::base::Check`: the process stops when the condition is false. -/
def check (condition : Prop) [Decidable condition] : Option Unit :=
  if condition then some () else none

@[simp] theorem check_eq_some {condition : Prop} [Decidable condition] {u : Unit} :
    check condition = some u ↔ condition := by
  unfold check
  split <;> simp_all

@[simp] theorem check_bind_eq_some {α : Type*} {condition : Prop} [Decidable condition]
    {f : Unit → Option α} {a : α} :
    (check condition).bind f = some a ↔ condition ∧ f () = some a := by
  unfold check
  split <;> simp_all

theorem check_of {condition : Prop} [Decidable condition] (h : condition) :
    check condition = some () := by
  simp [h]

/-- The part of a text that is passed as a C string. -/
def cString (text : List Char) : List Char :=
  text.takeWhile (·.toNat ≠ 0)

theorem cString_eq_self {text : List Char} : cString text = text ↔ ∀ c ∈ text, c.toNat ≠ 0 := by
  simp [cString, List.takeWhile_eq_self_iff]

/-- The function that `Subscribe` gets, of one of two kinds. -/
inductive MonitoredItemHandler where
  | dataChange
  | event
deriving DecidableEq

/-- A time in microseconds. -/
abbrev DateTime := ℤ

/-- Lengths of time in microseconds. -/
abbrev Duration := ℤ

namespace DateTime

/-- The default-constructed time. -/
def null : DateTime := 0

def max : DateTime := 2 ^ 63 - 1

end DateTime

/-- `first` and `second`; what the ends stand for depends on the user. -/
structure DateTimeRange where
  first : DateTime
  second : DateTime
deriving DecidableEq

abbrev EventId := ℕ

/-- Identifiers of observers, that is their addresses. -/
abbrev ObserverId := ℕ

inductive NodeId where
  | null
  | numeric (id : ℕ) (namespaceIndex : ℕ)
  | string (id : String) (namespaceIndex : ℕ)
  | opaqueId (id : List UInt8) (namespaceIndex : ℕ)
deriving DecidableEq

/-- The id is no id of bytes. -/
def NodeId.HasText (nodeId : NodeId) : Prop :=
  ∀ id namespaceIndex, nodeId ≠ .opaqueId id namespaceIndex

/-- A sample of a value of some `Variant` type `V`. -/
structure DataValue (V : Type*) where
  value : V
  /-- The bits of the qualifier. -/
  qualifier : ℕ
  sourceTimestamp : DateTime
  serverTimestamp : DateTime
deriving DecidableEq

end ScadaCommon
