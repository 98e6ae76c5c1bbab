/-
  Numbers that are whole or not.

  Documents tell whole numbers of any size from doubles. A coordinate is a `Number` in normal form:
  a double that is whole is stored as the whole number. Main fact: normalising twice is
  normalising once (`normalize_normalize`).
-/
import Retouch.Number.Scalar

namespace Retouch

/-- A whole number or a double. -/
inductive Number where
  | int (n : Int)
  | float (x : Float)
  deriving DecidableEq

namespace Number

/-- A whole double becomes the whole number. -/
def normalize : Number → Number
  | .int n => .int n
  | .float x =>
    match whole? x with
    | some n => .int n
    | none => .float x

theorem normalize_normalize (a : Number) : a.normalize.normalize = a.normalize := by
  cases a with
  | int n => rfl
  | float x =>
    cases h : whole? x with
    | none => simp [normalize, h]
    | some n => simp [normalize, h]

/-- The value as a scalar. -/
def toScalar {α : Type} [Scalar α] : Number → Except Fault α
  | .int n => Scalar.ofWhole n
  | .float x => .ok (Scalar.ofDouble x)

/-- The value as a double. -/
def toDouble : Number → Except Fault Float := toScalar

/-- Whether the value is below zero. -/
def isNegative : Number → Bool
  | .int n => n < 0
  | .float x => x < 0.0

/-- The sum, whole when both are. -/
def add : Number → Number → Except Fault Number
  | .int m, .int n => .ok (.int (m + n))
  | a, b => do return .float ((← a.toDouble) + (← b.toDouble))

/-- The difference, whole when both are. -/
def sub : Number → Number → Except Fault Number
  | .int m, .int n => .ok (.int (m - n))
  | a, b => do return .float ((← a.toDouble) - (← b.toDouble))

end Number

end Retouch
