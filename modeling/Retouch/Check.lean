/-
  Validation that goes on after a problem.

  A `Check` reads a part of a document. When the part is wrong it notes a problem and goes on with
  a placeholder, so that all problems of a document are found in order; a check with problems has
  no result (`Check.run`), so no placeholder ever leaves. A failure of another kind ends the check
  at once. Checks also issue the ids of layers that come without one.
-/
import Retouch.Failure

namespace Retouch

/-- What a check has done so far. -/
structure Check.Progress where
  /-- How many ids were issued. -/
  issued : Nat
  /-- The problems noted, in order. -/
  problems : List Problem

/-- A validation with a result. -/
abbrev Check := ExceptT Failure (StateM Check.Progress)

namespace Check

/-- Notes a problem here and goes on with a placeholder. -/
def note {α : Type} (kind : Problem.Kind) (placeholder : α) : Check α := do
  modify fun p => { p with problems := p.problems ++ [⟨[], kind⟩] }
  return placeholder

/-- Runs a check on a part; its problems are placed below the step that leads there. -/
def within {α : Type} (step : Step) (c : Check α) : Check α := fun p =>
  let (result, q) := c { p with problems := [] }
  let placed := q.problems.map fun problem => { problem with place := step :: problem.place }
  (result, { q with problems := p.problems ++ placed })

/-- The id with a number. -/
def idText (n : Nat) : String := "uuid-" ++ Number.natText n

/-- Issues a new id. -/
def freshId : Check String := do
  let p ← get
  set { p with issued := p.issued + 1 }
  return idText (p.issued + 1)

/-- Runs a check after `issued` ids: its result, or the failure with all problems, and the number
of ids issued then. -/
def run {α : Type} (c : Check α) (issued : Nat) : Except Failure α × Nat :=
  match c ⟨issued, []⟩ with
  | (.error f, p) => (.error f, p.issued)
  | (.ok a, p) => (if p.problems.isEmpty then .ok a else .error (.invalid p.problems), p.issued)

end Check

end Retouch
