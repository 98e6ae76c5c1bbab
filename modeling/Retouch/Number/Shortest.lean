/-
  The shortest decimal that reads back as a given double.

  The reals that round to `m · 2 ^ e` form an interval around it, with its ends when `m` is even.
  On the decimal grids with one, two, … seventeen digits the two neighbours of the value are
  tried; the first grid with a hit gives the digits, the nearer neighbour wins, and of two equally
  near ones the even one. All comparisons are between exact naturals.
-/
import Retouch.Number.Binary

namespace Retouch.Number

/-- The power `10 ^ k`. -/
def tenTo (k : Nat) : Nat := Nat.pow 10 k

/-- The decimal `digits · 10 ^ scale`. -/
structure Decimal where
  digits : Nat
  scale : Int
  deriving DecidableEq, Repr

/-- A non-negative quotient `num / den` of naturals. -/
structure Ratio where
  num : Nat
  den : Nat
  deriving DecidableEq, Repr

namespace Ratio

/-- `m · 2 ^ e` as a quotient. -/
def ofBinary (m : Nat) (e : Int) : Ratio :=
  if 0 ≤ e then ⟨m * twoTo e.toNat, 1⟩ else ⟨m, twoTo (-e).toNat⟩

/-- `d · 10 ^ k` as a quotient. -/
def ofDecimal (d : Nat) (k : Int) : Ratio :=
  if 0 ≤ k then ⟨d * tenTo k.toNat, 1⟩ else ⟨d, tenTo (-k).toNat⟩

def le (a b : Ratio) : Bool := a.num * b.den ≤ b.num * a.den
def lt (a b : Ratio) : Bool := a.num * b.den < b.num * a.den

/-- How often `10 ^ k` goes into the quotient. -/
def divPow10 (a : Ratio) (k : Int) : Nat :=
  if 0 ≤ k then a.num / (a.den * tenTo k.toNat) else a.num * tenTo (-k).toNat / a.den

/-- The numerator of `|a - b|` over the product of the denominators. -/
def distance (a b : Ratio) : Ratio :=
  let x := a.num * b.den
  let y := b.num * a.den
  ⟨if x ≤ y then y - x else x - y, a.den * b.den⟩

end Ratio

/-- The number of decimal digits of `n`, one for zero. -/
def digitCount (n : Nat) : Nat :=
  (Nat.toDigits 10 n).length

/-- The greatest `k` with `10 ^ k ≤ a`, for a positive quotient not below `10 ^ -400`. -/
def leadingPower (a : Ratio) : Int :=
  if a.den ≤ a.num then (digitCount (a.num / a.den) : Int) - 1
  else
    match (List.range 400).find? fun k => a.den ≤ a.num * tenTo (k + 1) with
    | some k => -(k + 1 : Int)
    | none => -401

/-- The interval of reals that round to a double. -/
structure Rounding where
  low : Ratio
  high : Ratio
  /-- Whether the two ends belong to it. -/
  closed : Bool

namespace Rounding

/-- The interval around `m · 2 ^ e`: half a step either way, and a quarter step down where the
steps below are half as wide. -/
def ofBinary (m : Nat) (e : Int) : Rounding :=
  { low :=
      if m = twoTo 52 ∧ -1074 < e then Ratio.ofBinary (4 * m - 1) (e - 2)
      else Ratio.ofBinary (2 * m - 1) (e - 1)
    high := Ratio.ofBinary (2 * m + 1) (e - 1)
    closed := m % 2 == 0 }

/-- Whether a quotient lies in the interval. -/
def holds (r : Rounding) (a : Ratio) : Bool :=
  if r.closed then r.low.le a && a.le r.high else r.low.lt a && a.lt r.high

end Rounding

/-- The neighbour of `value` on the grid of `count` digits that lies in the interval, the nearer
one of two and the even one of two equally near. -/
def onGrid? (value : Ratio) (interval : Rounding) (power : Int) (count : Nat) : Option Decimal :=
  let scale := power - (count : Int) + 1
  let below := value.divPow10 scale
  let low := Ratio.ofDecimal below scale
  let high := Ratio.ofDecimal (below + 1) scale
  match interval.holds low, interval.holds high with
  -- Both neighbours read back: the nearer one, and the even one of two equally near.
  | true, true =>
    let down := value.distance low
    let up := value.distance high
    if down.lt up || (down.le up && below % 2 == 0) then some ⟨below, scale⟩
    else some ⟨below + 1, scale⟩
  | true, false => some ⟨below, scale⟩
  | false, true => some ⟨below + 1, scale⟩
  | false, false => none

/-- Takes the zeros off the end of a positive number of digits; `fuel` bounds their count. -/
def Decimal.dropZeros : (fuel : Nat) → Decimal → Decimal
  | 0, d => d
  | fuel + 1, d =>
    if d.digits ≠ 0 ∧ d.digits % 10 = 0 then dropZeros fuel ⟨d.digits / 10, d.scale + 1⟩ else d

/-- The shortest decimal that reads back as `m · 2 ^ e`, for a positive mantissa. -/
def shortest (m : Nat) (e : Int) : Decimal :=
  let value := Ratio.ofBinary m e
  let interval := Rounding.ofBinary m e
  let power := leadingPower value
  -- Seventeen digits always suffice, so the default below is never taken.
  let found := (List.range 17).findSome? fun i => onGrid? value interval power (i + 1)
  (found.getD ⟨value.divPow10 (power - 16), power - 16⟩).dropZeros 20

end Retouch.Number
