/-
  The numbers that sizes and positions are computed with.

  The computations of this library are written once, over any type of class `Scalar`. They run on
  doubles; on the rationals the same definitions say what the computations mean without rounding.
-/
import Retouch.Number.Double

namespace Retouch

open Number (Fault)

/-- A type of numbers with exact or rounded arithmetic. -/
class Scalar (α : Type) extends Add α, Sub α, Mul α, Div α, Neg α, BEq α, LT α, LE α where
  literal : (n : Nat) → OfNat α n
  lt_decidable : (a b : α) → Decidable (a < b)
  le_decidable : (a b : α) → Decidable (a ≤ b)
  /-- One half. -/
  half : α
  /-- A whole number. -/
  ofWhole : Int → Except Fault α
  /-- A quotient of two whole numbers. -/
  quotient : Int → Int → Except Fault α
  /-- A quotient. -/
  divide : α → α → Except Fault α
  /-- The greatest whole number not above. -/
  floor : α → Except Fault Int
  /-- The whole part, toward zero. -/
  trunc : α → Except Fault Int
  /-- The value of a double. -/
  ofDouble : Float → α
  /-- A nearest double. -/
  toDouble : α → Float

namespace Scalar

instance {α : Type} [Scalar α] (n : Nat) : OfNat α n := Scalar.literal n
instance {α : Type} [Scalar α] (a b : α) : Decidable (a < b) := Scalar.lt_decidable a b
instance {α : Type} [Scalar α] (a b : α) : Decidable (a ≤ b) := Scalar.le_decidable a b

instance : Scalar Float where
  literal _ := inferInstance
  lt_decidable _ _ := inferInstance
  le_decidable _ _ := inferInstance
  half := 0.5
  ofWhole := Number.ofWhole
  quotient := Number.quotient
  divide := Number.divide
  floor := Number.floorOf
  trunc := Number.truncOf
  ofDouble x := x
  toDouble x := x

instance : Scalar Rat where
  literal _ := inferInstance
  lt_decidable _ _ := inferInstance
  le_decidable _ _ := inferInstance
  half := 1 / 2
  ofWhole n := .ok (n : Rat)
  quotient a b := if b = 0 then .error .divisionByZero else .ok ((a : Rat) / (b : Rat))
  divide a b := if b = 0 then .error .doubleDivisionByZero else .ok (a / b)
  floor x := .ok x.floor
  trunc x := .ok (if x < 0 then -(-x).floor else x.floor)
  ofDouble := Number.exactValue
  toDouble x :=
    let size := Number.nearest x.num.natAbs x.den
    if x < 0 then -size else size

variable {α : Type} [Scalar α]

/-- The greater of two, the first unless the second exceeds it. -/
def max (a b : α) : α := if a < b then b else a

/-- The lesser of two, the first unless the second is below it. -/
def min (a b : α) : α := if b < a then b else a

/-- The size of a number without its sign. -/
def abs (a : α) : α := if a < 0 then -a else a

/-- The nearest whole number, a half going up. -/
def round (a : α) : Except Fault Int := floor (a + half)

/-- A whole number times a scalar, rounded. -/
def scaleRound (n : Int) (s : α) : Except Fault Int := do
  round ((← ofWhole n) * s)

end Scalar

end Retouch
