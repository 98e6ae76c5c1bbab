/-
  Doubles taken apart, and what can be read off the parts exactly.

  A finite double is a whole mantissa times a power of two. Rounding down, cutting toward zero and
  testing for a whole number are done on these parts in exact arithmetic, so none of them depends
  on the range of a machine integer.
-/

namespace Retouch.Number

/-! ## Powers -/

/-- The power `2 ^ k`. -/
def twoTo (k : Nat) : Nat := Nat.pow 2 k

theorem twoTo_pos (k : Nat) : 0 < twoTo k := Nat.pow_pos (by decide)

/-! ## Parts -/

/-- A double: no number, an infinity, or `± mantissa · 2 ^ exponent`. -/
inductive Parts where
  | notANumber
  | infinite (negative : Bool)
  | finite (negative : Bool) (mantissa : Nat) (exponent : Int)
  deriving DecidableEq, Repr

/-- Reads the parts off the 64 bits: a sign, 11 bits of biased exponent, 52 bits of fraction. -/
def parts (x : Float) : Parts :=
  let bits : Nat := x.toBits.toNat
  let negative := bits / twoTo 63 == 1
  let biased : Nat := bits / twoTo 52 % twoTo 11
  let fraction : Nat := bits % twoTo 52
  if biased = 2047 then
    if fraction = 0 then .infinite negative else .notANumber
  -- Below the least normal double the mantissa has no leading one.
  else if biased = 0 then .finite negative fraction (-1074)
  else .finite negative (twoTo 52 + fraction) ((biased : Int) - 1075)

/-- A mantissa with its sign. -/
def signed (negative : Bool) (mantissa : Nat) : Int :=
  if negative then -(mantissa : Int) else mantissa

/-! ## Exact whole numbers -/

/-- The greatest whole number that is at most `m · 2 ^ e`. -/
def floorScaled (m e : Int) : Int :=
  if 0 ≤ e then m * twoTo e.toNat else m / twoTo (-e).toNat

/-- `m · 2 ^ e` without its fractional part. -/
def truncScaled (m e : Int) : Int :=
  if 0 ≤ e then m * twoTo e.toNat else m.tdiv (twoTo (-e).toNat)

/-- Whether `m · 2 ^ e` is a whole number. -/
def isWholeScaled (m e : Int) : Bool :=
  0 ≤ e || m % twoTo (-e).toNat == 0

/-- The whole number that a double is, if it is one. -/
def whole? (x : Float) : Option Int :=
  match parts x with
  | .finite negative m e =>
    if isWholeScaled (signed negative m) e then some (truncScaled (signed negative m) e) else none
  | _ => none

/-- Whether a double is neither infinite nor no number. -/
def isFinite (x : Float) : Bool :=
  match parts x with
  | .finite .. => true
  | _ => false

/-- The parts of a double without the sign of zero. -/
def value (x : Float) : Parts :=
  match parts x with
  | .finite _ 0 e => .finite false 0 e
  | p => p

/-- Whether two doubles have the same value. The two zeros do; so do any two that are no number. -/
def sameValue (x y : Float) : Bool := value x = value y

/-- The exact value of a double; no number and the infinities count as zero. -/
def exactValue (x : Float) : Rat :=
  match parts x with
  | .finite negative m e =>
    if 0 ≤ e then ((signed negative m * twoTo e.toNat : Int) : Rat)
    else mkRat (signed negative m) (twoTo (-e).toNat)
  | _ => 0

end Retouch.Number
