/-
  Values as messages show them.

  Lists stand in brackets and objects in braces, with a comma and a space between the parts; null
  is `None`, truth values are capitalised, texts are quoted.
-/
import Retouch.Number.Notation
import Retouch.Text.Quoted
import Retouch.Value.Basic

namespace Retouch.Value

/-- The word for a truth value. -/
def boolText (b : Bool) : String :=
  if b then "True" else "False"

mutual

/-- A value as a message shows it. -/
def quoted : Value → String
  | .null => "None"
  | .bool b => boolText b
  | .int n => Number.intText n
  | .float x => Number.Layout.plain.text x
  | .text s => Text.quote s
  | .rawText codes => Text.quoteCodes codes
  | .list items => "[" ++ String.intercalate ", " (quotedItems items) ++ "]"
  | .object entries => "\x7b" ++ String.intercalate ", " (quotedEntries entries) ++ "\x7d"

/-- The items of a list, each shown. -/
def quotedItems : List Value → List String
  | [] => []
  | v :: vs => v.quoted :: quotedItems vs

/-- The entries of an object, each shown with its key. -/
def quotedEntries : List (String × Value) → List String
  | [] => []
  | (k, v) :: es => (Text.quote k ++ ": " ++ v.quoted) :: quotedEntries es

end

/-- A value as plain text: a text is itself, all else is shown as in messages. -/
def plainText : Value → String
  | .text s => s
  | v => v.quoted

example : quoted (.object [("a", .list [.null, .bool true, .text "x"])]) =
    "\x7b'a': [None, True, 'x']\x7d" := by decide +kernel

end Retouch.Value
