/-
  Quoted texts, as error messages show them.

  A text stands in single quotes, or in double quotes when it holds a single quote and no double
  one. The quote in use and the backslash are escaped, line feed, carriage return and tab have
  letters of their own, and every other code point that does not show is written by its number in
  two, four or eight hexadecimal digits.
-/
import Retouch.Text.Printable

namespace Retouch.Text

/-- `n` in lower-case hexadecimal with at least `width` digits. -/
def hex (width n : Nat) : String :=
  let ds := Nat.toDigits 16 n
  String.ofList (List.replicate (width - ds.length) '0' ++ ds)

/-- The quote that stands around a text with these code points. -/
def quoteMark (codes : List Nat) : Char :=
  if codes.contains '\''.toNat && !codes.contains '"'.toNat then '"' else '\''

/-- One code point of a text between two marks `mark`. -/
def quoteCode (mark : Char) (n : Nat) : String :=
  if n == mark.toNat || n == '\\'.toNat then String.ofList ['\\', Char.ofNat n]
  else if n == 9 then "\\t"
  else if n == 10 then "\\n"
  else if n == 13 then "\\r"
  else if isPrintable n then String.singleton (Char.ofNat n)
  else if n < 0x100 then "\\x" ++ hex 2 n
  else if n < 0x10000 then "\\u" ++ hex 4 n
  else "\\U" ++ hex 8 n

/-- The quoted form of a sequence of code points, surrogates allowed. -/
def quoteCodes (codes : List Nat) : String :=
  let mark := quoteMark codes
  String.singleton mark ++ String.join (codes.map (quoteCode mark)) ++ String.singleton mark

/-- The quoted form of a text. -/
def quote (s : String) : String :=
  quoteCodes (s.toList.map Char.toNat)

end Retouch.Text
