/-
  A clock with timers.

  The clock stands still until it is moved. Moving it runs every timer that comes due on the way,
  ordered by due time and, at the same time, by age; what a timer runs may set and cancel further
  timers. A cancelled timer stays in line and is passed over. Main facts: a set timer joins those in
  line (`mem_insert`, `length_line_later`).
-/
import Retouch.Number.Scalar

namespace Retouch

/-- A timer that runs an action. -/
structure Timer (α β : Type) where
  /-- When it runs. -/
  due : α
  /-- How many timers were set before it. -/
  serial : Nat
  action : β

/-- The time, and the timers in line by due time and age. -/
structure Clock (α β : Type) where
  now : α
  /-- How many timers were ever set. -/
  count : Nat := 0
  line : List (Timer α β) := []
  /-- The serial numbers of the cancelled timers. -/
  cancelled : List Nat := []

namespace Clock

variable {α β : Type}

/-- A clock without timers at time zero. -/
def start [Scalar α] : Clock α β := { now := 0 }

/-- Puts a timer in line behind all that are due no later. -/
def insert [Scalar α] (t : Timer α β) : List (Timer α β) → List (Timer α β)
  | [] => [t]
  | u :: us => if u.due ≤ t.due then u :: insert t us else t :: u :: us

/-- Sets a timer; its serial number is that of the clock's count before. No timer is due before
now. -/
def later [Scalar α] (c : Clock α β) (delay : α) (action : β) : Clock α β :=
  { c with
    count := c.count + 1
    line := insert ⟨c.now + Scalar.max 0 delay, c.count, action⟩ c.line }

/-- Cancels a timer. -/
def cancel (c : Clock α β) (serial : Nat) : Clock α β :=
  { c with cancelled := serial :: c.cancelled }

/-- Whether a timer was cancelled. -/
def isCancelled (c : Clock α β) (serial : Nat) : Bool := c.cancelled.contains serial

/-- How many timers are waiting that were not cancelled. -/
def pending (c : Clock α β) : Nat :=
  (c.line.filter fun t => !c.isCancelled t.serial).length

/-- Takes the first timer out of line if it is due by a time, and moves on to when it is due. -/
def next? [Scalar α] (c : Clock α β) (target : α) : Option (Timer α β × Clock α β) :=
  match c.line with
  | [] => none
  | t :: ts =>
    if t.due ≤ target then some (t, { c with line := ts, now := Scalar.max c.now t.due }) else none

/-! ## Moving on -/

section

variable {σ : Type}

/-- Runs the timers due by a time, with a state that they change along with the clock. Gives the
number of actions run, or nothing when more than `fuel` timers come up. -/
def drain [Scalar α] (run : β → Clock α β × σ → Clock α β × σ) (target : α) :
    (fuel : Nat) → Clock α β × σ → Option (Nat × Clock α β × σ)
  | 0, _ => none
  | fuel + 1, (c, s) =>
    match c.next? target with
    | none => some (0, c, s)
    | some (t, c) =>
      -- A cancelled timer still moves the clock to its time.
      if c.isCancelled t.serial then drain run target fuel (c, s)
      else (drain run target fuel (run t.action (c, s))).map fun (n, w) => (n + 1, w)

/-- Moves the clock forward, running every timer that comes due. -/
def advance? [Scalar α] (run : β → Clock α β × σ → Clock α β × σ) (fuel : Nat) (time : α)
    (w : Clock α β × σ) : Option (Nat × Clock α β × σ) :=
  -- The clock ends at the target, whether or not a timer was due on the way.
  let target := w.1.now + time
  (drain run target fuel w).map fun (n, c, s) => (n, { c with now := target }, s)

/-- Runs all timers, moving the clock from one to the next. -/
def runAll? [Scalar α] (run : β → Clock α β × σ → Clock α β × σ) (fuel : Nat) :
    (rounds : Nat) → Clock α β × σ → Option (Nat × Clock α β × σ)
  | 0, _ => none
  | rounds + 1, w =>
    match w.1.line with
    | [] => some (0, w)
    | t :: _ => do
      -- Going forward by a difference may stop just short of the due time; the next round then
      -- goes on from there.
      let (n, w) ← advance? run fuel (Scalar.max 0 (t.due - w.1.now)) w
      let (m, w) ← runAll? run fuel rounds w
      return (n + m, w)

end

/-! ## Laws -/

theorem mem_insert [Scalar α] {t u : Timer α β} {ts : List (Timer α β)} :
    u ∈ insert t ts ↔ u = t ∨ u ∈ ts := by
  induction ts with
  | nil => simp [insert]
  | cons v vs ih =>
    by_cases h : v.due ≤ t.due
    · simp only [insert, if_pos h, List.mem_cons, ih]
      constructor
      · rintro (h | h | h) <;> simp [h]
      · rintro (h | h | h) <;> simp [h]
    · simp [insert, if_neg h]

theorem length_insert [Scalar α] (t : Timer α β) (ts : List (Timer α β)) :
    (insert t ts).length = ts.length + 1 := by
  induction ts with
  | nil => rfl
  | cons u us ih =>
    by_cases h : u.due ≤ t.due
    · simp [insert, if_pos h, ih]
    · simp [insert, if_neg h]

/-- Setting a timer puts one more in line. -/
theorem length_line_later [Scalar α] (c : Clock α β) (delay : α) (action : β) :
    (c.later delay action).line.length = c.line.length + 1 := length_insert _ _

end Clock

end Retouch
