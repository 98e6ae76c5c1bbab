/-
  How a double is written in decimal.

  A layout says which powers of ten are written positionally and how an exponent looks. Whole
  values keep a fractional part `.0` unless they have an exponent, and every exponent has a sign.
  Two layouts are in use: `plain` for paths, fragments and messages, `document` for template
  documents.
-/
import Retouch.Number.Shortest

namespace Retouch.Number

/-- The choices that fix the text of a double. -/
structure Layout where
  /-- The least power of the leading digit that is written without exponent. -/
  lowest : Int
  /-- The least power of the leading digit from which an exponent is written again. -/
  highest : Int
  /-- The least number of digits of an exponent. -/
  exponentDigits : Nat
  /-- What stands for a value that is no number. -/
  notANumber : String
  /-- What stands for the positive infinity. -/
  infinity : String
  /-- What stands for the negative infinity. -/
  negativeInfinity : String

/-- Positional from `0.0001` to below `10 ^ 16`, otherwise an exponent of two digits. -/
def Layout.plain : Layout :=
  ⟨-4, 16, 2, "nan", "inf", "-inf"⟩

/-- As `plain`, with the names of the special values in data interchange. -/
def Layout.interchange : Layout :=
  { Layout.plain with notANumber := "NaN", infinity := "Infinity", negativeInfinity := "-Infinity" }

/-- Positional from `0.00001` to below `10 ^ 16`, otherwise an exponent; the special values have no
text of their own. -/
def Layout.document : Layout :=
  ⟨-5, 16, 1, "null", "null", "null"⟩

/-- The decimal digits of a natural. -/
def natText (n : Nat) : String :=
  String.ofList (Nat.toDigits 10 n)

/-- The decimal digits of a whole number, after a minus sign if it is negative. -/
def intText (n : Int) : String :=
  if n < 0 then "-" ++ natText n.natAbs else natText n.natAbs

/-- `count` zeros. -/
def zeros (count : Nat) : String :=
  String.ofList (List.replicate count '0')

/-- The exponent part for a leading digit at `power`. -/
def Layout.exponentText (l : Layout) (power : Int) : String :=
  let digits := natText power.natAbs
  "e" ++ (if power < 0 then "-" else "+") ++
    zeros (l.exponentDigits - digits.length) ++ digits

/-- The text of a positive decimal. -/
def Layout.decimalText (l : Layout) (d : Decimal) : String :=
  let ds := Nat.toDigits 10 d.digits
  let power := d.scale + (ds.length : Int) - 1
  if l.lowest ≤ power ∧ power < l.highest then
    -- The leading digit stands behind the point.
    if power < 0 then "0." ++ zeros ((-power).toNat - 1) ++ String.ofList ds
    else
      -- `front` digits stand before the point, filled up with zeros.
      let front := power.toNat + 1
      let rest := ds.drop front
      String.ofList (ds.take front) ++ zeros (front - ds.length) ++ "." ++
        (if rest.isEmpty then "0" else String.ofList rest)
  else
    String.ofList (ds.take 1) ++ (if ds.length ≤ 1 then "" else "." ++ String.ofList (ds.drop 1)) ++
      l.exponentText power

/-- The text of a double. -/
def Layout.text (l : Layout) (x : Float) : String :=
  match parts x with
  | .notANumber => l.notANumber
  | .infinite false => l.infinity
  | .infinite true => l.negativeInfinity
  | .finite negative m e =>
    let size := if m = 0 then "0.0" else l.decimalText (shortest m e)
    if negative then "-" ++ size else size

/-! ## The boundaries of the layouts -/

example :
    Layout.plain.text 0.0001 = "0.0001" ∧ Layout.plain.text 0.00001 = "1e-05" ∧
      Layout.document.text 0.00001 = "0.00001" ∧ Layout.document.text 0.000001 = "1e-6" ∧
      Layout.plain.text 1e16 = "1e+16" ∧ Layout.plain.text 1e15 = "1000000000000000.0" ∧
      Layout.plain.text (0.1 + 0.2) = "0.30000000000000004" := by
  decide +kernel

end Retouch.Number
