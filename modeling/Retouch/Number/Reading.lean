/-
  Numbers read from digits.

  A decimal `digits · 10 ^ scale` becomes the nearest double. Its size decides first: beyond
  `10 ^ 400` it is the infinity and below `10 ^ -400` it is zero, so no huge power is computed.
  Whole numbers with more than 4300 digits are refused wherever a text is read.
-/
import Retouch.Number.Shortest

namespace Retouch.Number

/-- The greatest number of digits of a whole number that is read from a text. -/
def digitLimit : Nat := 4300

/-- Whether the character is one of the ten ASCII digits. -/
def isDigit (c : Char) : Bool :=
  '0' ≤ c && c ≤ '9'

/-- The natural that ASCII digits write. -/
def digitsNat (cs : List Char) : Nat :=
  cs.foldl (fun n c => 10 * n + (c.toNat - '0'.toNat)) 0

/-- The double nearest to a decimal. -/
def decimalDouble (d : Decimal) : Float :=
  if d.digits = 0 then 0.0
  else
    let size := (digitCount d.digits : Int) + d.scale
    -- The powers computed below stay under four hundred digits more than the text has.
    if 400 < size then 1.0 / 0.0
    else if size < -400 then 0.0
    else if 0 ≤ d.scale then Float.ofScientific d.digits false d.scale.toNat
    else Float.ofScientific d.digits true (-d.scale).toNat

/-- A double with a sign. -/
def signedDouble (negative : Bool) (x : Float) : Float :=
  if negative then -x else x

/-- The optional sign in front of a text: whether it is a minus, and the rest. -/
def takeSign : List Char → Bool × List Char
  | '-' :: r => (true, r)
  | '+' :: r => (false, r)
  | r => (false, r)

/-- The exponent part at the front of a text, if there is one: the letter, an optional sign and at
least one digit. -/
def takeExponent? (cs : List Char) : Option (Int × List Char) :=
  match cs with
  | c :: r =>
    if c = 'e' ∨ c = 'E' then
      let (negative, r') := takeSign r
      let ds := r'.takeWhile isDigit
      if ds.isEmpty then none else some (signed negative (digitsNat ds), r'.dropWhile isDigit)
    else none
  | [] => none

end Retouch.Number
