/-
  Undo and redo.

  The history keeps complete trees: those before the current one, newest first, and those that
  were undone, the next to redo first. Changes that come in quick succession are one entry: the
  first one captures the tree before it, and the capture becomes an entry when the changes pause.
  Each operation also says what it asks for: whether the entries changed and what becomes of the
  pause. Main facts: neither side exceeds the limit (`length_past_push_le`), a capture is kept
  until it becomes an entry (`pending_record`), and a tree that is the newest entry already does
  not become one again (`push_of_same`).
-/
import Retouch.Tree

namespace Retouch

/-- Undo and redo entries. -/
structure History where
  /-- The trees to undo to, newest first. -/
  past : List State := []
  /-- The trees to redo to, next first. -/
  future : List State := []
  /-- The tree before the changes in progress. -/
  pending : Option State := none
  /-- The most entries on either side. -/
  limit : Nat

/-- What an operation on the history asks for. -/
inductive History.Effect where
  /-- The entries changed. -/
  | changed
  /-- The pause that ends the changes in progress begins anew. -/
  | restartWindow
  | stopWindow
  deriving DecidableEq, Repr

namespace History

/-- Whether there is something to undo. -/
def canUndo (h : History) : Bool := !h.past.isEmpty || h.pending.isSome

/-- Whether there is something to redo. -/
def canRedo (h : History) : Bool := !h.future.isEmpty

/-- Adds an entry and drops what was undone, unless the newest entry asks for the same. -/
def push (h : History) (s : State) : History × List Effect :=
  let s := s.withoutVisualCrop
  if h.past.head?.any (·.same s) then (h, [])
  else ({ h with past := (s :: h.past).take h.limit, future := [] }, [.changed])

/-- Makes the capture an entry. -/
def commit (h : History) : History × List Effect :=
  match h.pending with
  | none => (h, [])
  | some s => { h with pending := none }.push s

/-- Captures the tree before a change, unless there is a capture already. -/
def record (h : History) (current : State) : History × List Effect :=
  ({ h with pending := h.pending <|> some current }, [.restartWindow])

/-- Makes the capture an entry without waiting for a pause. -/
def flush (h : History) : History × List Effect :=
  let (h, effects) := h.commit
  (h, .stopWindow :: effects)

/-- Makes the capture and then the current tree entries. -/
def checkpoint (h : History) (current : State) : History × List Effect :=
  let (h, first) := h.flush
  let (h, second) := h.push current
  (h, first ++ second)

/-- Goes back one entry, if there is one, from the current tree. -/
def undo (h : History) (current : State) : Option State × History × List Effect :=
  let (h, effects) := h.flush
  match h.past with
  | [] => (none, h, effects)
  | s :: past =>
    let future := (current.withoutVisualCrop :: h.future).take h.limit
    (some s, { h with past, future }, effects ++ [.changed])

/-- Goes forward one entry, if there is one, from the current tree. -/
def redo (h : History) (current : State) : Option State × History × List Effect :=
  let (h, effects) := h.flush
  match h.future with
  | [] => (none, h, effects)
  | s :: future =>
    let past := (current.withoutVisualCrop :: h.past).take h.limit
    (some s, { h with past, future }, effects ++ [.changed])

/-- Drops all entries and the capture. -/
def clear (h : History) : History × List Effect :=
  ({ limit := h.limit }, [.stopWindow, .changed])

/-- Stops waiting for a pause; the capture stays. -/
def cancel (h : History) : History × List Effect := (h, [.stopWindow])

/-! ## Laws -/

theorem push_of_same {h : History} {s top : State} (htop : h.past.head? = some top)
    (hsame : top.same s.withoutVisualCrop = true) : h.push s = (h, []) := by
  simp [push, htop, hsame]

theorem length_past_push_le {h : History} (hle : h.past.length ≤ h.limit) (s : State) :
    (h.push s).1.past.length ≤ h.limit := by
  by_cases hsame : h.past.head?.any (·.same s.withoutVisualCrop) = true
  · simpa [push, hsame] using hle
  · have hcut : min h.limit (h.past.length + 1) ≤ h.limit := Nat.min_le_left ..
    simp [push, hsame, hcut]

theorem pending_record (h : History) (current : State) :
    (h.record current).1.pending = some (h.pending.getD current) := by
  cases hp : h.pending <;> simp [record, hp]

end History

end Retouch
