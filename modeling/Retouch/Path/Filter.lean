/-
  Filters and the chain that they form in a path.

  A filter is written `name(args)`; the arguments may hold balanced parentheses with anything
  inside. A chain is written with colons between the filters, and read by cutting at the colons
  outside all parentheses.
-/
import Retouch.Failure
import Retouch.Text.Blank

namespace Retouch

/-- A filter with its arguments as text. -/
structure Filter where
  name : String
  args : String := ""
  deriving DecidableEq, Repr, Inhabited

namespace Filter

/-- The written filter. -/
def text (f : Filter) : String := f.name ++ "(" ++ f.args ++ ")"

/-- Reads a filter; blanks around it are ignored and the name is not empty. -/
def read (cs : List Char) : Except Failure Filter :=
  let trimmed := Text.trimBy Text.isBlank cs
  let name := trimmed.takeWhile (· ≠ '(')
  match trimmed.dropWhile (· ≠ '(') with
  | '(' :: r =>
    if name.isEmpty || trimmed.getLast? != some ')' then bad trimmed
    else .ok ⟨String.ofList name, String.ofList r.dropLast⟩
  | _ => bad trimmed
where
  bad (trimmed : List Char) : Except Failure Filter :=
    .error (.value (.badFilter (String.ofList trimmed)))

/-- What stands in front of a written chain. -/
def chainWord : String := "filters:"

/-- The written chain, without the word in front. -/
def chainText (fs : List Filter) : String :=
  String.intercalate ":" (fs.map text)

/-- Cuts characters at the colons outside parentheses; `current` is the part begun, reversed. -/
def cutAt (depth : Int) (current : List Char) : List Char → List (List Char)
  | [] => [current.reverse]
  | c :: r =>
    -- The depth may become negative, and a colon does not cut there either.
    if c = ':' ∧ depth = 0 then current.reverse :: cutAt 0 [] r
    else
      let depth' := if c = '(' then depth + 1 else if c = ')' then depth - 1 else depth
      cutAt depth' (c :: current) r

/-- Drops a word in front of characters, if it stands there. -/
def dropWord (word cs : List Char) : List Char :=
  if word.isPrefixOf cs then cs.drop word.length else cs

/-- Reads a chain; empty parts are skipped. -/
def readChain (segment : String) : Except Failure (List Filter) :=
  let cs := dropWord chainWord.toList segment.toList
  ((cutAt 0 [] cs).filter (!·.isEmpty)).mapM read

end Filter

end Retouch
