/-
  Doubles made from exact values.

  Conversions from whole numbers and quotients round to the nearest double, ties to the even one,
  and refuse what exceeds every double. Rounding to two places works on the exact value, ties to
  the even hundredth.
-/
import Retouch.Number.Binary
import Retouch.Number.Fault

namespace Retouch.Number

/-- The double `2 ^ e`, for exponents from -1022 to 1023. -/
def powerOfTwo (e : Int) : Float :=
  Float.ofBits (UInt64.ofNat ((e + 1023).toNat * twoTo 52))

/-- `x · 2 ^ e`, in two steps where one power would leave the range of doubles. -/
def scaleTwo (x : Float) (e : Int) : Float :=
  if -1000 ≤ e ∧ e ≤ 1000 then x * powerOfTwo e
  else if e < 0 then x * powerOfTwo (-1000) * powerOfTwo (max (e + 1000) (-1022))
  else x * powerOfTwo 1000 * powerOfTwo (min (e - 1000) 1023)

/-- The double nearest to `num / den`, from 66 bits of the quotient and a mark for the rest. -/
def nearest (num den : Nat) : Float :=
  if num = 0 then 0.0
  else
    -- Shifted by `k` bits, the whole part of the quotient has 66 or 67 bits.
    let k : Int := 66 + (Nat.log2 den : Int) - (Nat.log2 num : Int)
    let a := if 0 ≤ k then num * twoTo k.toNat else num
    let b := if 0 ≤ k then den else den * twoTo (-k).toNat
    -- The last bit marks a remainder, so that what is just above a tie is not taken for one.
    scaleTwo (Float.ofNat (2 * (a / b) + if a % b = 0 then 0 else 1)) (-(k + 1))

/-- The double nearest to a whole number. -/
def ofWhole (n : Int) : Except Fault Float :=
  let x := Float.ofInt n
  if isFinite x then .ok x else .error .tooLarge

/-- The double nearest to a quotient of whole numbers. -/
def quotient (a b : Int) : Except Fault Float :=
  if b = 0 then .error .divisionByZero
  -- Up to 53 bits both are doubles themselves, and one division rounds once.
  else if a.natAbs ≤ twoTo 53 ∧ b.natAbs ≤ twoTo 53 then .ok (Float.ofInt a / Float.ofInt b)
  else
    let size := nearest a.natAbs b.natAbs
    if isFinite size then .ok (if (a < 0) = (b < 0) then size else -size)
    else .error .quotientTooLarge

/-- The quotient of two doubles. -/
def divide (a b : Float) : Except Fault Float :=
  if b == 0.0 then .error .doubleDivisionByZero else .ok (a / b)

/-- The greatest whole number that is at most a double. -/
def floorOf (x : Float) : Except Fault Int :=
  match parts x with
  | .notANumber => .error .notANumber
  | .infinite _ => .error .infinite
  | .finite negative m e => .ok (floorScaled (signed negative m) e)

/-- A double without its fractional part. -/
def truncOf (x : Float) : Except Fault Int :=
  match parts x with
  | .notANumber => .error .notANumber
  | .infinite _ => .error .infinite
  | .finite negative m e => .ok (truncScaled (signed negative m) e)

/-- `num / den` rounded to a whole number, ties to the even one. -/
def roundEven (num den : Nat) : Nat :=
  let q := num / den
  let r := 2 * (num % den)
  if r < den ∨ (r = den ∧ q % 2 = 0) then q else q + 1

/-- A double rounded to two decimal places. -/
def roundHundredths (x : Float) : Float :=
  match parts x with
  | .finite negative m e =>
    -- Without fractional bits there is nothing to round.
    if 0 ≤ e then x
    else
      -- The sign is put back last: ties to even are the same on both sides of zero.
      let size := Float.ofScientific (roundEven (m * 100) (twoTo (-e).toNat)) true 2
      if negative then -size else size
  | _ => x

example :
    roundHundredths 0.125 = 0.12 ∧ roundHundredths 0.375 = 0.38 ∧
      (quotient 1 3).toOption = some (1.0 / 3.0) ∧ (quotient 1 0).toOption = none := by
  decide +kernel

end Retouch.Number
