/-
  The text of a value.

  The compact form has no space at all; the indented form puts each part on a line of its own,
  two spaces deeper than its container, and a space after each colon. Texts are written raw except
  for quotes, backslashes and control characters. The compact form is only made of values whose
  whole numbers do not have too many digits (`isPrintable`).
-/
import Retouch.Number.Notation
import Retouch.Number.Reading
import Retouch.Text.Quoted
import Retouch.Value.Basic

namespace Retouch.Value

/-! ## Texts -/

/-- One character inside double quotes. -/
def escapeChar (c : Char) : List Char :=
  if c = '"' then ['\\', '"']
  else if c = '\\' then ['\\', '\\']
  else if c = '\n' then ['\\', 'n']
  else if c = '\r' then ['\\', 'r']
  else if c = '\t' then ['\\', 't']
  else if c.toNat = 8 then ['\\', 'b']
  else if c.toNat = 12 then ['\\', 'f']
  else if c.toNat < 32 then '\\' :: 'u' :: (Text.hex 4 c.toNat).toList
  else [c]

/-- A text in double quotes. -/
def textLiteral (s : String) : String :=
  String.ofList ('"' :: s.toList.flatMap escapeChar ++ ['"'])

/-- A text with lone surrogates in double quotes; the surrogates are escaped. -/
def rawTextLiteral (codes : List Nat) : String :=
  let code (n : Nat) : List Char :=
    if 0xd800 ≤ n ∧ n < 0xe000 then '\\' :: 'u' :: (Text.hex 4 n).toList
    else escapeChar (Char.ofNat n)
  String.ofList ('"' :: codes.flatMap code ++ ['"'])

/-! ## The compact form -/

mutual

/-- The text of a value without any space, doubles written by the given layout. -/
def compact (l : Number.Layout) : Value → String
  | .null => "null"
  | .bool b => if b then "true" else "false"
  | .int n => Number.intText n
  | .float x => l.text x
  | .text s => textLiteral s
  | .rawText codes => rawTextLiteral codes
  | .list items => "[" ++ String.intercalate "," (compactItems l items) ++ "]"
  | .object entries => "\x7b" ++ String.intercalate "," (compactEntries l entries) ++ "\x7d"

/-- The texts of the items of a list. -/
def compactItems (l : Number.Layout) : List Value → List String
  | [] => []
  | v :: vs => v.compact l :: compactItems l vs

/-- The texts of the entries of an object. -/
def compactEntries (l : Number.Layout) : List (String × Value) → List String
  | [] => []
  | (k, v) :: es => (textLiteral k ++ ":" ++ v.compact l) :: compactEntries l es

end

mutual

/-- Whether no whole number in a value has too many digits for the compact form. -/
def isPrintable : Value → Bool
  | .int n => (Number.natText n.natAbs).length ≤ Number.digitLimit
  | .list items => printableItems items
  | .object entries => printableEntries entries
  | _ => true

/-- Whether that holds of all items of a list. -/
def printableItems : List Value → Bool
  | [] => true
  | v :: vs => v.isPrintable && printableItems vs

/-- Whether that holds of all values of an object. -/
def printableEntries : List (String × Value) → Bool
  | [] => true
  | (_, v) :: es => v.isPrintable && printableEntries es

end

/-! ## The indented form -/

/-- A line break and the indentation at a depth. -/
def lineBreak (depth : Nat) : String :=
  "\n" ++ String.ofList (List.replicate (2 * depth) ' ')

/-- The parts of a container between its brackets, one a line. -/
def block (opening closing : String) (depth : Nat) (parts : List String) : String :=
  if parts.isEmpty then opening ++ closing
  else
    opening ++ lineBreak (depth + 1) ++
      String.intercalate ("," ++ lineBreak (depth + 1)) parts ++ lineBreak depth ++ closing

mutual

/-- The text of a value with one part a line, doubles written by the given layout. -/
def indented (l : Number.Layout) (depth : Nat) : Value → String
  | .list items => block "[" "]" depth (indentedItems l (depth + 1) items)
  | .object entries => block "\x7b" "\x7d" depth (indentedEntries l (depth + 1) entries)
  | .null => "null"
  | .bool b => if b then "true" else "false"
  | .int n => Number.intText n
  | .float x => l.text x
  | .text s => textLiteral s
  | .rawText codes => rawTextLiteral codes

/-- The texts of the items of a list. -/
def indentedItems (l : Number.Layout) (depth : Nat) : List Value → List String
  | [] => []
  | v :: vs => v.indented l depth :: indentedItems l depth vs

/-- The texts of the entries of an object. -/
def indentedEntries (l : Number.Layout) (depth : Nat) : List (String × Value) → List String
  | [] => []
  | (k, v) :: es =>
    (textLiteral k ++ ": " ++ v.indented l depth) :: indentedEntries l depth es

end

end Retouch.Value
