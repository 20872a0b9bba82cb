import Mathlib.Algebra.GroupWithZero.Nat
import ScadaCommon.TimedData.TimedDataBuffer

/-!
# The history of an expression

`ExpressionTimedData::CalculateValuesInRange` goes through the histories of the
operands of an expression and stores what the expression gives on them. All
operands move on together, by one sample a round.

§1 expressions · §2 one round · §3 the loop.
-/

namespace ScadaCommon

variable {V D : Type}

/-! ## §1  Expressions -/

/-- What is used of `Variant` (`V`) and `Qualifier`. -/
structure ExpressionCore (V D : Type) where
  nullVariant : V
  isNullVariant : V → Bool
  ofDouble : D → V
  /-- `Qualifier::bad`. -/
  isBad : ℕ → Bool
  /-- `Qualifier::set_bad(true)`. -/
  setBad : ℕ → ℕ
  isNull_null : isNullVariant nullVariant = true
  isNull_ofDouble : ∀ d, isNullVariant (ofDouble d) = false
  ofDouble_injective : Function.Injective ofDouble

/-- `ScadaExpression::Calculate`, for the values of the items; `evaluate` is the
parsed expression. -/
def calculate (core : ExpressionCore V D) (evaluate : List V → D) (items : List (DataValue V)) :
    V :=
  if items.any (core.isNullVariant ·.value) then core.nullVariant
  else core.ofDouble (evaluate (items.map (·.value)))

/-! ## §2  One round -/

/-- An operand: `GetValues()`, its iterator and the value of its item. -/
structure Operand (V : Type) where
  values : List (DataValue V)
  iterator : ℕ
  value : DataValue V

namespace Operand

/-- Initial iterators and values; `none` also where an empty span has no
`back()`. -/
def start (first : DateTime) (values : List (DataValue V)) : Option (Operand V) :=
  let iterator := lowerBound values first
  match values[iterator]? with
  | some v => some ⟨values, iterator, v⟩
  | none =>
      match values.getLast? with
      | none => none
      | some back => do
          check (back.timestamp ≤ first)
          return ⟨values, iterator, back⟩

/-- The sample the operand is at, while it is in the range. -/
def pending (range : DateTimeRange) (operand : Operand V) : Option (DataValue V) :=
  match operand.values[operand.iterator]? with
  | none => none
  | some v => if range.second ≠ .null ∧ range.second < v.timestamp then none else some v

/-- What a round does to the item and the iterator of an operand. -/
def advance (range : DateTimeRange) (operand : Operand V) : Operand V :=
  match operand.pending range with
  | none => operand
  | some v => { operand with value := v, iterator := operand.iterator + 1 }

end Operand

/-- The variables of one round. -/
structure CalculationRound where
  updateTime : DateTime := .null
  totalQualifier : ℕ := 0
  calculationFinished : Bool := true

/-- What a round does to its variables at an operand. The update time is that of
the value the item has before the round. -/
def CalculationRound.visit (core : ExpressionCore V D) (range : DateTimeRange)
    (round : CalculationRound) (operand : Operand V) : CalculationRound :=
  let updateTime :=
    if round.updateTime = .null ∨ round.updateTime < operand.value.timestamp then
      operand.value.timestamp
    else round.updateTime
  match operand.pending range with
  | none => { round with updateTime }
  | some v =>
      { updateTime
        totalQualifier :=
          if core.isBad v.qualifier then core.setBad round.totalQualifier else round.totalQualifier
        calculationFinished := false }

/-! ## §3  The loop -/

section

variable (core : ExpressionCore V D) (evaluate : List V → D)

/-- Stores the value of a round. -/
def storeTotal (buffer : TimedDataBuffer V) (round : CalculationRound)
    (operands : List (Operand V)) : TimedDataBuffer V :=
  let totalValue := calculate core evaluate (operands.map (·.value))
  if core.isNullVariant totalValue then buffer
  else (buffer.insertOrUpdate ⟨totalValue, round.totalQualifier, round.updateTime, .null⟩).1

/-- Each round takes at least one sample, so the number of samples and one more
is fuel enough. -/
def calculationLoop (range : DateTimeRange) :
    ℕ → List (Operand V) → TimedDataBuffer V → Option (List (Operand V) × TimedDataBuffer V)
  | 0, _, _ => none
  | fuel + 1, operands, buffer =>
      let round := operands.foldl (CalculationRound.visit core range) {}
      let operands := operands.map (·.advance range)
      if round.calculationFinished then some (operands, buffer)
      else do
        check (round.updateTime ≠ .null)
        calculationLoop range fuel operands (storeTotal core evaluate buffer round operands)

/-- `CalculateValuesInRange`, with the items it leaves. -/
def calculateValuesInRange (operands : List (List (DataValue V))) (range : DateTimeRange)
    (buffer : TimedDataBuffer V) : Option (List (Operand V) × TimedDataBuffer V) := do
  check (range.first ≠ .null)
  check (range.second = .null ∨ range.first ≤ range.second)
  let started ← operands.mapM (Operand.start range.first)
  calculationLoop core evaluate range ((operands.map List.length).sum + 1) started buffer

end

end ScadaCommon
