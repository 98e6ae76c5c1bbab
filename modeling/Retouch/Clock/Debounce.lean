/-
  Windows that delay an action until things are quiet.

  Starting a window anew puts its end off; the action runs when it ends. A window holds the timer
  at whose due time it ends. Main fact: a window that was started is open, one that was stopped is
  not (`isOpen_restart`, `isOpen_stop`).
-/
import Retouch.Clock.Basic

namespace Retouch

/-- A window of a fixed length, and the serial number of its timer while it is open. -/
structure Window (α : Type) where
  length : α
  timer : Option Nat := none

namespace Window

variable {α β : Type}

/-- Whether the window is open: its action is due at its end. -/
def isOpen (w : Window α) : Bool := w.timer.isSome

/-- The window once it has ended. -/
def ended (w : Window α) : Window α := { w with timer := none }

/-- Closes the window without running its action. -/
def stop (w : Window α) (c : Clock α β) : Window α × Clock α β :=
  match w.timer with
  | none => (w, c)
  | some serial => (w.ended, c.cancel serial)

/-- Opens the window anew, the action to run at its end. -/
def restart [Scalar α] (w : Window α) (c : Clock α β) (action : β) : Window α × Clock α β :=
  let (w, c) := w.stop c
  ({ w with timer := some c.count }, c.later w.length action)

theorem isOpen_stop (w : Window α) (c : Clock α β) : (w.stop c).1.isOpen = false := by
  cases h : w.timer <;> simp [stop, h, isOpen, ended]

theorem isOpen_restart [Scalar α] (w : Window α) (c : Clock α β) (action : β) :
    (w.restart c action).1.isOpen = true := by
  simp [restart, isOpen]

end Window

end Retouch
