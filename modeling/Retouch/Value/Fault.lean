/-
  Why a text is not read as a value.

  Either the text breaks the grammar at some place, or a whole number in it has more digits than
  are converted. The wording gives the place by its line, its column and the number of characters
  in front of it; lines and columns count from one.
-/
import Retouch.Number.Notation
import Retouch.Number.Reading

namespace Retouch.Value

/-- What is wrong with a text where it breaks the grammar. -/
inductive Breach where
  /-- A byte order mark in front. -/
  | orderMark
  /-- No value where one is due. -/
  | value
  /-- No key where one is due. -/
  | key
  | colon
  | comma
  /-- More behind the value than gaps. -/
  | more
  /-- A text without its closing quote; the place is that of the opening one. -/
  | openText
  | control
  | escape
  | codeEscape
  deriving DecidableEq, Repr

/-- The wording of a breach. -/
def Breach.message : Breach → String
  | .orderMark => "Unexpected UTF-8 BOM (decode using utf-8-sig)"
  | .value => "Expecting value"
  | .key => "Expecting property name enclosed in double quotes"
  | .colon => "Expecting ':' delimiter"
  | .comma => "Expecting ',' delimiter"
  | .more => "Extra data"
  | .openText => "Unterminated string starting at"
  | .control => "Invalid control character at"
  | .escape => "Invalid \\escape"
  | .codeEscape => "Invalid \\uXXXX escape"

/-- A place in a text. -/
structure Place where
  line : Nat
  column : Nat
  /-- The number of characters in front. -/
  index : Nat
  deriving DecidableEq, Repr

/-- The place behind the characters in front of it. -/
def Place.behind (front : List Char) : Place where
  line := front.count '\n' + 1
  column := (front.reverse.takeWhile (· ≠ '\n')).length + 1
  index := front.length

/-- The wording of a place. -/
def Place.message (p : Place) : String :=
  "line " ++ Number.natText p.line ++ " column " ++ Number.natText p.column ++
    " (char " ++ Number.natText p.index ++ ")"

/-- Why a text is not read. -/
inductive Fault where
  | broken (cause : Breach) (place : Place)
  /-- A whole number has so many digits. -/
  | tooManyDigits (count : Nat)
  deriving DecidableEq, Repr

/-- The wording of a fault. -/
def Fault.message : Fault → String
  | .broken cause place => cause.message ++ ": " ++ place.message
  | .tooManyDigits count =>
    "Exceeds the limit (" ++ Number.natText Number.digitLimit ++
      " digits) for integer string conversion: value has " ++ Number.natText count ++
      " digits; use sys.set_int_max_str_digits() to increase the limit"

example : (Fault.broken .value (.behind "[1,\n ".toList)).message =
    "Expecting value: line 2 column 2 (char 5)" := by decide

end Retouch.Value
