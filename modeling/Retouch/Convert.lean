/-
  Conversions of document values to typed ones.

  Documents are read leniently: a whole number may come as a truth value, as a double without
  fraction or as a text, a number as a text, a truth value as 0, 1 or one of twelve words. Each
  conversion notes exactly one problem when the value does not fit.
-/
import Retouch.Check
import Retouch.Number.Reading
import Retouch.Text.Blank
import Retouch.Text.DecimalDigit

namespace Retouch.Convert

open Number (isDigit digitsNat takeSign signed)

/-! ## Texts as numbers -/

/-- Takes the underscores out of a run of digits. They may only stand singly between digits. -/
def dropUnderscores? (digit : Char → Bool) : List Char → Option (List Char)
  | [] => none
  | [c] => if digit c then some [c] else none
  | c :: '_' :: r =>
    if digit c then (dropUnderscores? digit r).map (c :: ·) else none
  | c :: r => if digit c then (dropUnderscores? digit r).map (c :: ·) else none

/-- The whole number that a text writes: an optional sign, digits with single underscores between
them, and optionally a point with zeros behind it. -/
def wholeOfText? (text : String) : Option Int :=
  let (negative, r) := takeSign (Text.trimBy Text.isSpace text.toList)
  let front := r.takeWhile (· ≠ '.')
  let back := (r.dropWhile (· ≠ '.')).drop 1
  if back.all (· = '0') then
    (dropUnderscores? isDigit front).map fun ds => signed negative (digitsNat ds)
  else none

/-- The magnitude of a number without sign: digits with at most one point, then an exponent. -/
def unsignedDouble? (cs : List Char) : Option Float :=
  let whole := cs.takeWhile isDigit
  let r := cs.dropWhile isDigit
  let (places, r) :=
    match r with
    | '.' :: r => (r.takeWhile isDigit, r.dropWhile isDigit)
    | r => ([], r)
  -- A point alone is no number.
  if whole.isEmpty && places.isEmpty then none
  else
    let digits := digitsNat (whole ++ places)
    if r.isEmpty then some (Number.decimalDouble ⟨digits, -(places.length : Int)⟩)
    else
      match Number.takeExponent? r with
      | some (power, []) => some (Number.decimalDouble ⟨digits, power - (places.length : Int)⟩)
      | _ => none

/-- ASCII letters in lower case, all else unchanged. -/
def lowerAscii (s : String) : String :=
  s.map Char.toLower

/-- The double that characters write: a number, or a special value by name in any case. -/
def doubleOfChars? (cs : List Char) : Option Float :=
  let (negative, r) := takeSign cs
  let word := lowerAscii (String.ofList r)
  let size :=
    if word = "nan" then some (0.0 / 0.0)
    else if word = "inf" ∨ word = "infinity" then some (1.0 / 0.0)
    else unsignedDouble? r
  size.map (Number.signedDouble negative)

/-- Whether every underscore stands singly and none at an end. -/
def underscoresApart (cs : List Char) : Bool :=
  let rec pairs : List Char → Bool
    | '_' :: '_' :: _ => false
    | _ :: r => pairs r
    | [] => true
  cs.head? != some '_' && cs.getLast? != some '_' && pairs cs

/-- The double that a text writes; single underscores inside are dropped. -/
def doubleOfText? (text : String) : Option Float :=
  let cs := Text.trimBy Text.isSpace text.toList
  match doubleOfChars? cs with
  | some x => some x
  | none =>
    -- Underscores are tried only where the text is no number as it stands.
    if cs.contains '_' && underscoresApart cs then doubleOfChars? (cs.filter (· ≠ '_')) else none

/-- The truth value that a word stands for, in any case. -/
def truthOfText? (text : String) : Option Bool :=
  let word := lowerAscii text
  if ["0", "off", "f", "false", "n", "no"].contains word then some false
  else if ["1", "on", "t", "true", "y", "yes"].contains word then some true
  else none

/-! ## Conversions -/

/-- Doubles below this size convert to whole numbers. -/
def wholeBound : Int := Number.twoTo 63

/-- Why a double is no whole number, or the number it is. -/
def wholeOfDouble (x : Float) : Except Problem.Kind Int :=
  if !Number.isFinite x then .error .notFinite
  else
    match Number.whole? x with
    | none => .error .wholeHasFraction
    | some n => if -wholeBound < n ∧ n < wholeBound then .ok n else .error .wholeTooLarge

/-- A whole number. -/
def int : Value → Check Int
  | .int n => return n
  | .bool b => return if b then 1 else 0
  | .float x =>
    match wholeOfDouble x with
    | .ok n => return n
    | .error kind => Check.note kind 0
  | .text s =>
    -- The length counts before the text is looked at, signs and zeros included.
    if Number.digitLimit < (Text.trimSpace s).utf8ByteSize then Check.note .wholeTooLarge 0
    else
      match wholeOfText? s with
      | some n => return n
      | none => Check.note .wholeUnreadable 0
  | .rawText _ => Check.note .brokenText 0
  | _ => Check.note .notWhole 0

/-- A double. -/
def double : Value → Check Float
  | .float x => return x
  | .int n =>
    match Number.ofWhole n with
    | .ok x => return x
    | .error _ => Check.note .notNumber 0.0
  | .bool b => return if b then 1.0 else 0.0
  | .text s =>
    match doubleOfText? s with
    | some x => return x
    | none => Check.note .numberUnreadable 0.0
  | .rawText _ => Check.note .brokenText 0.0
  | _ => Check.note .notNumber 0.0

/-- A truth value. -/
def truth : Value → Check Bool
  | .bool b => return b
  | .int n => ofWhole n
  | .float x =>
    match wholeOfDouble x with
    | .ok n => ofWhole n
    | .error _ => Check.note .notTruth false
  | .text s =>
    match truthOfText? s with
    | some b => return b
    | none => Check.note .truthUnreadable false
  | .rawText _ => Check.note .brokenText false
  | _ => Check.note .notTruth false
where
  ofWhole (n : Int) : Check Bool :=
    if n = 0 then return false
    else if n = 1 then return true
    else Check.note .truthUnreadable false

/-- A text. -/
def text : Value → Check String
  | .text s => return s
  | .rawText _ => Check.note .brokenText ""
  | _ => Check.note .notText ""

/-- A whole number between two bounds. -/
def intBetween (low high : Int) (v : Value) : Check Int := do
  let n ← int v
  if n < low then Check.note .belowRange n
  else if high < n then Check.note .aboveRange n
  else return n

/-- The value of a required field, with its problems placed below the field's name. -/
def required {α : Type} [Inhabited α] (es : Entries) (key : String) (c : Value → Check α) :
    Check α :=
  match Entries.lookup key es with
  | some v => Check.within (.key key) (c v)
  | none => Check.within (.key key) (Check.note .missing default)

end Retouch.Convert
