/-
  Arithmetic that has no answer.
-/

namespace Retouch.Number

/-- Why a computation has no result. -/
inductive Fault where
  /-- A whole number was divided by zero. -/
  | divisionByZero
  /-- A double was divided by zero. -/
  | doubleDivisionByZero
  /-- A value that is no number was asked for a whole number. -/
  | notANumber
  /-- An infinity was asked for a whole number. -/
  | infinite
  /-- A whole number exceeds every double. -/
  | tooLarge
  /-- A quotient of whole numbers exceeds every double. -/
  | quotientTooLarge
  deriving DecidableEq, Repr

/-- The wording of a fault. -/
def Fault.message : Fault → String
  | .divisionByZero => "division by zero"
  | .doubleDivisionByZero => "float division by zero"
  | .notANumber => "cannot convert float NaN to integer"
  | .infinite => "cannot convert float infinity to integer"
  | .tooLarge => "int too large to convert to float"
  | .quotientTooLarge => "integer division result too large for a float"

end Retouch.Number
