/-
  Scripts of timers and windows.

  A script sets and cancels timers, moves the clock and works windows, all by name. A timer logs
  its name when it runs and then follows a script of its own, which may move the clock as well. A
  step of such a script that fails halts everything that is under way: the clock stands where it
  was, and the step that moved it fails. A name that is given again stands for the newer timer or
  window; the older one goes on without a name.
-/
import Retouch.Clock.Debounce
import Retouch.Failure

namespace Retouch.Script

/-- A step of a script. -/
inductive Order (α : Type) where
  /-- Sets a timer that runs further steps. -/
  | later (name : String) (delay : α) (steps : List (Order α))
  | cancel (name : String)
  | isCancelled (name : String)
  | advance (seconds : α)
  | advanceMs (milliseconds : α)
  | runAll
  /-- Makes a window. -/
  | window (name : String) (milliseconds : α)
  | restart (name : String)
  | stop (name : String)
  | flush (name : String)

mutual

/-- The number of steps in a step, itself included. -/
def Order.size {α : Type} : Order α → Nat
  | .later _ _ steps => 1 + ordersSize steps
  | _ => 1

/-- The number of steps in a script at any depth. -/
def ordersSize {α : Type} : List (Order α) → Nat
  | [] => 0
  | o :: os => o.size + ordersSize os

end

/-- What a timer of a script does. -/
inductive Alarm (α : Type) where
  | follow (name : String) (steps : List (Order α))
  /-- Ends the window with an index. -/
  | windowEnd (index : Nat)

/-- What a step answers. -/
inductive Reply where
  | done
  | truth (b : Bool)
  /-- The number of actions run. -/
  | ran (n : Nat)

/-- The names of a script and what was logged. -/
structure Desk (α : Type) where
  /-- The timer that each name stands for, newest first. -/
  timers : List (String × Nat) := []
  /-- The window that each name stands for, newest first. -/
  windowNames : List (String × Nat) := []
  windows : List (String × Window α) := []
  log : List (String × α) := []
  /-- The failure that halted what is under way, and the clock where it halted. -/
  halted : Option (Failure × Clock α (Alarm α)) := none

namespace Desk

variable {α : Type}

/-- Logs a name. -/
def note (d : Desk α) (name : String) (time : α) : Desk α :=
  { d with log := d.log ++ [(name, time)] }

/-- Replaces the window with an index. -/
def setWindow (d : Desk α) (index : Nat) (w : Window α) : Desk α :=
  { d with windows := d.windows.modify index fun (name, _) => (name, w) }

/-- The index of a window by name, and the window. -/
def window? (d : Desk α) (name : String) : Option (Nat × Window α) := do
  let index ← List.lookup name d.windowNames
  let (_, w) ← d.windows[index]?
  return (index, w)

end Desk

/-- The clock and the desk of a script. -/
abbrev Room (α : Type) := Clock α (Alarm α) × Desk α

namespace Order

variable {α : Type}

/-- Works the window with a name; answers whether it is open afterwards. -/
def withWindow (name : String) (r : Room α) (f : Nat → Window α → Window α × Room α) :
    Except Failure Reply × Room α :=
  match r.2.window? name with
  | none => (.error .unknownKey, r)
  | some (index, w) =>
    let (w, c, d) := f index w
    (.ok (.truth w.isOpen), c, d.setWindow index w)

/-- Answers how many actions moving the clock ran, or what halted it. -/
def answerRan (r : Room α) : Option (Nat × Room α) → Except Failure Reply × Room α
  | some (n, r) =>
    match r.2.halted with
    | none => (.ok (.ran n), r)
    | some (f, _) => (.error f, r)
  | none => (.ok (.ran 0), r)

/-- Halts what is under way. The clock is kept as it stands, and goes on without timers, so that
nothing more runs. -/
def halt (f : Failure) (r : Room α) : Room α :=
  match r.2.halted with
  -- What halted a clock that a timer moved also halts the clock that runs this timer.
  | some _ => r
  | none => ({ r.1 with line := [] }, { r.2 with halted := some (f, r.1) })

/-- Takes the clock up again where it was halted. -/
def takeUp (r : Room α) : Room α :=
  match r.2.halted with
  | some (_, c) => (c, { r.2 with halted := none })
  | none => r

/-- Follows a step. `fuel` bounds the timers that run while the clock moves and how deep the clock
is moved by timers. -/
def follow [Scalar α] : (fuel : Nat) → Order α → Room α → Except Failure Reply × Room α
  | _, .later name delay steps, (c, d) =>
    (.ok .done, c.later delay (.follow name steps),
      { d with timers := (name, c.count) :: d.timers })
  | _, .cancel name, (c, d) =>
    match List.lookup name d.timers with
    | none => (.error .unknownKey, c, d)
    | some serial => (.ok (.truth true), c.cancel serial, d)
  | _, .isCancelled name, (c, d) =>
    match List.lookup name d.timers with
    | none => (.error .unknownKey, c, d)
    | some serial => (.ok (.truth (c.isCancelled serial)), c, d)
  | _, .window name milliseconds, (c, d) =>
    match Scalar.divide milliseconds 1000 with
    | .error f => (.error (.arithmetic f), c, d)
    | .ok length =>
      (.ok .done, c,
        { d with
          windowNames := (name, d.windows.length) :: d.windowNames
          windows := d.windows ++ [(name, { length })] })
  | _, .restart name, r =>
    withWindow name r fun index w =>
      let (w, c) := w.restart r.1 (.windowEnd index)
      (w, c, r.2)
  | _, .stop name, r =>
    withWindow name r fun _ w =>
      let (w, c) := w.stop r.1
      (w, c, r.2)
  | _, .flush name, r =>
    -- Flushing logs at once what the end of the window would have logged.
    withWindow name r fun _ w =>
      if w.isOpen then
        let (w, c) := w.stop r.1
        (w, c, r.2.note name c.now)
      else (w, r)
  -- Only moving the clock can run timers, so only there fuel is spent.
  | 0, _, r => (.ok .done, r)
  | fuel + 1, .advance seconds, r =>
    answerRan r (Clock.advance? (ring fuel) (fuel + 1) seconds r)
  | fuel + 1, .advanceMs milliseconds, r =>
    match Scalar.divide milliseconds 1000 with
    | .error f => (.error (.arithmetic f), r)
    | .ok seconds => answerRan r (Clock.advance? (ring fuel) (fuel + 1) seconds r)
  | fuel + 1, .runAll, r => answerRan r (Clock.runAll? (ring fuel) (fuel + 1) (2 * fuel + 2) r)
where
  /-- Runs what a timer does; a step that fails halts what is under way. -/
  ring (fuel : Nat) (alarm : Alarm α) (r : Room α) : Room α :=
    match alarm with
    | .follow name steps =>
      match followAll fuel steps (r.1, r.2.note name r.1.now) with
      | (none, r) => r
      | (some f, r) => halt f r
    | .windowEnd index =>
      match r.2.windows[index]? with
      | none => r
      | some (name, w) => (r.1, (r.2.setWindow index w.ended).note name r.1.now)
  /-- Follows steps up to the first one that fails; gives its failure. -/
  followAll (fuel : Nat) : List (Order α) → Room α → Option Failure × Room α
    | [], r => (none, r)
    | o :: os, r =>
      match follow fuel o r with
      | (.ok _, r) => followAll fuel os r
      | (.error f, r) => (some f, r)

end Order

/-- A script in progress: the room, and the number of steps that it has altogether. -/
structure Run (α : Type) where
  room : Room α
  size : Nat

namespace Run

variable {α : Type}

/-- A script before its first step. -/
def start [Scalar α] (orders : List (Order α)) : Run α := ⟨(.start, {}), ordersSize orders⟩

/-- The script with a fresh log. -/
def fresh (s : Run α) : Run α := { s with room := (s.room.1, { s.room.2 with log := [] }) }

/-- Follows a step with a fresh log. -/
def step [Scalar α] (s : Run α) (o : Order α) : Except Failure Reply × Run α :=
  let (reply, room) := o.follow (s.size + 1) s.fresh.room
  (reply, { s with room := Order.takeUp room })

/-- What the last step logged. -/
def log (s : Run α) : List (String × α) := s.room.2.log

/-- The time. -/
def time (s : Run α) : α := s.room.1.now

/-- How many timers are waiting. -/
def pending (s : Run α) : Nat := s.room.1.pending

end Run

end Retouch.Script
