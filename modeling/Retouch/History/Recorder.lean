/-
  A history that watches the clock.

  A recorder keeps the current tree along with its history. The pause that ends a succession of
  changes is a window on a clock; when it ends, the capture becomes an entry. Every operation also
  says how often the entries changed.
-/
import Retouch.Clock.Debounce
import Retouch.History.Basic

namespace Retouch

/-- What ends on the clock of a recorder. -/
inductive Pause where
  | over

/-- The current tree, its history, and the window on a clock. -/
structure Recorder (α : Type) where
  current : State
  history : History
  window : Window α
  clock : Clock α Pause

namespace Recorder

variable {α : Type}

/-- A recorder without entries. -/
def start [Scalar α] (current : State) (limit : Int) (length : α) : Recorder α :=
  { current, history := { limit := limit.toNat }, window := { length }, clock := .start }

/-- Does what an effect asks for. -/
def perform [Scalar α] (r : Recorder α) : History.Effect → Recorder α
  | .changed => r
  | .restartWindow =>
    let (window, clock) := r.window.restart r.clock .over
    { r with window, clock }
  | .stopWindow =>
    let (window, clock) := r.window.stop r.clock
    { r with window, clock }

/-- How often effects say that the entries changed. -/
def changes (effects : List History.Effect) : Nat := effects.count .changed

/-- Takes the outcome of an operation on the history. -/
def apply [Scalar α] (r : Recorder α) (outcome : History × List History.Effect) :
    Recorder α × Nat :=
  (outcome.2.foldl perform { r with history := outcome.1 }, changes outcome.2)

/-! ## Operations -/

/-- Captures the current tree before a change, unless there is a capture already. -/
def record [Scalar α] (r : Recorder α) : Recorder α × Nat := r.apply (r.history.record r.current)

/-- Captures the current tree and puts another one in its place. -/
def edit [Scalar α] (r : Recorder α) (s : State) : Recorder α × Nat :=
  let (r, n) := r.record
  ({ r with current := s }, n)

/-- Makes the capture and then the current tree entries. -/
def checkpoint [Scalar α] (r : Recorder α) : Recorder α × Nat :=
  r.apply (r.history.checkpoint r.current)

/-- Makes the capture an entry without waiting for a pause. -/
def flush [Scalar α] (r : Recorder α) : Recorder α × Nat := r.apply r.history.flush

/-- Stops waiting for a pause. -/
def cancel [Scalar α] (r : Recorder α) : Recorder α × Nat := r.apply r.history.cancel

/-- Drops all entries and the capture. -/
def clear [Scalar α] (r : Recorder α) : Recorder α × Nat := r.apply r.history.clear

/-- Takes the tree that the history gives, if it gives one; says whether it did. -/
def travel [Scalar α] (r : Recorder α)
    (outcome : Option State × History × List History.Effect) : Bool × Recorder α × Nat :=
  let (r, n) := r.apply outcome.2
  (outcome.1.isSome, { r with current := outcome.1.getD r.current }, n)

/-- Goes back one entry. -/
def undo [Scalar α] (r : Recorder α) : Bool × Recorder α × Nat :=
  r.travel (r.history.undo r.current)

/-- Goes forward one entry. -/
def redo [Scalar α] (r : Recorder α) : Bool × Recorder α × Nat :=
  r.travel (r.history.redo r.current)

/-! ## Time -/

/-- Ends the pause. -/
def pauseOver (r : Recorder α) : Recorder α × Nat :=
  let (history, effects) := r.history.commit
  ({ r with window := r.window.ended, history }, changes effects)

/-- Moves the clock; gives the number of actions run first. -/
def advance [Scalar α] (r : Recorder α) (seconds : α) : Nat × Recorder α × Nat :=
  -- The clock moves beside the recorder, and is put back into it at the end.
  let run (_ : Pause) (w : Clock α Pause × Recorder α × Nat) : Clock α Pause × Recorder α × Nat :=
    let (clock, r, n) := w
    let (r, m) := r.pauseOver
    (clock, r, n + m)
  match Clock.advance? run (r.clock.line.length + 1) seconds (r.clock, r, 0) with
  | none => (0, r, 0)
  | some (ran, clock, r, n) => (ran, { r with clock }, n)

end Recorder

end Retouch
