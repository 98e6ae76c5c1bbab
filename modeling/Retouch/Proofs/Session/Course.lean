/-
  The course of a session on any subject, timer by timer.

  From outside orders are given, the subject is edited, errands are sent, calls are answered and
  time passes.  A timer comes due, at any time and in any order, and is passed over if it was cancelled:
  this is what a course (`Session.course`) says more about than a run, in which pauses end without
  a timer.  Settling, and moving the clocks, are courses among others (`leads_settle`,
  `leads_advance`, `leads_runAll`).
-/
import Retouch.Proofs.Clock.Turns
import Retouch.Session.Editing
import Retouch.Session.Sample

namespace Retouch.Session

variable {δ : Type} [Subject δ]

/-! ## Occurrences -/

/-- What can happen to a session. -/
inductive Occurrence (δ : Type) where
  | order (o : Preview.Order)
  /-- An operation on the subject has an outcome. -/
  | edit (subject : δ) (effects : List Editor.Effect)
  | send (e : Errand δ)
  | answer (n : Nat) (outcome : Preview.Outcome)
  /-- URLs come from another generator from now on. -/
  | serve (generator : Generator)
  /-- A job in line runs, whether or not it is the first. -/
  | run (place : Nat)
  /-- A timer on the clock of the waits comes due and joins the line. -/
  | due (place : Nat)
  /-- A timer on the clock that is moved by hand comes due. -/
  | tick (place : Nat)
  /-- The clocks show other times. -/
  | pass (scheduler waits : Float)

/-- What becomes of a session. -/
def occur (s : Session δ) : Occurrence δ → Session δ
  | .order o => s.order o
  | .edit subject effects => s.takeSubject subject effects
  | .send e => (s.send e).2
  | .answer n outcome => (s.answer n outcome).2
  | .serve generator => { s with generator }
  | .run place =>
    match s.ready[place]? with
    | none => s
    | some j => { s with ready := s.ready.eraseIdx place }.runJob j
  | .due place =>
    match s.waits.line[place]? with
    | none => s
    | some t =>
      { s with
        waits := { s.waits with line := s.waits.line.eraseIdx place }
        ready := s.ready ++ [.alarm t.serial t.action] }
  | .tick place =>
    match s.scheduler.line[place]? with
    | none => s
    | some t =>
      let u := { s with scheduler := { s.scheduler with line := s.scheduler.line.eraseIdx place } }
      if s.scheduler.isCancelled t.serial then u else u.ring t.action
  | .pass scheduler waits =>
    { s with
      scheduler := { s.scheduler with now := scheduler }
      waits := { s.waits with now := waits } }

/-- What becomes of a session in a course. -/
def course (s : Session δ) (os : List (Occurrence δ)) : Session δ := os.foldl occur s

theorem course_append (s : Session δ) (os os' : List (Occurrence δ)) :
    s.course (os ++ os') = (s.course os).course os' := List.foldl_append ..

/-- Whether a session is new: nothing waits and nothing was asked for. -/
structure Fresh (s : Session δ) : Prop where
  preview : s.preview = {}
  timer : s.previewWindow.timer = none
  scheduler : s.scheduler.line = []
  waits : s.waits.line = []
  calls : s.calls = []
  ready : s.ready = []

theorem fresh_sample (s : Sample) (generator : Generator) (byHand : Bool) (pauseMs : Float) :
    (s.session generator byHand pauseMs).Fresh := ⟨rfl, rfl, rfl, rfl, rfl, rfl⟩

/-- Sessions with an editor are fresh when they begin. -/
theorem fresh_editor (e : Editor) (generator : Generator) (byHand : Bool) :
    (e.session generator byHand).Fresh := ⟨rfl, rfl, rfl, rfl, rfl, rfl⟩

/-! ## Settling and moving the clocks -/

/-- Whether a course leads from a session to another one. -/
def Leads (s t : Session δ) : Prop := ∃ os, t = s.course os

namespace Leads

variable {s t u : Session δ}

theorem refl (s : Session δ) : Leads s s := ⟨[], rfl⟩

theorem trans (h : Leads s t) (h' : Leads t u) : Leads s u := by
  obtain ⟨os, rfl⟩ := h
  obtain ⟨os', rfl⟩ := h'
  exact ⟨os ++ os', (course_append _ _ _).symm⟩

theorem occur (h : Leads s t) (o : Occurrence δ) : Leads s (t.occur o) := h.trans ⟨[o], rfl⟩

end Leads

/-- Running the first jobs in line is a course. -/
theorem leads_runJobs (n : Nat) (s : Session δ) : Leads s (runJobs n s) := by
  induction n generalizing s with
  | zero => exact .refl s
  | succ n ih =>
      cases hs : s.ready with
      | nil =>
          have hnone : runJobs (n + 1) s = s := by simp only [runJobs, hs]
          rw [hnone]
          exact .refl s
      | cons j js =>
          have hrun : s.occur (.run 0) = { s with ready := js }.runJob j := by
            simp only [occur, hs, List.getElem?_cons_zero, List.eraseIdx_cons_zero]
          have hjobs : runJobs (n + 1) s = runJobs n (s.occur (.run 0)) := by
            rw [hrun]
            simp only [runJobs, hs]
          rw [hjobs]
          exact (Leads.refl s).occur (.run 0) |>.trans (ih _)

/-- Timers join the line one after the other. -/
theorem leads_due (ts rest : List (Timer Float Alarm)) (s : Session δ)
    (h : s.waits.line = ts ++ rest) :
    Leads s { s with
      waits := { s.waits with line := rest }
      ready := s.ready ++ ts.map fun t => .alarm t.serial t.action } := by
  induction ts generalizing s with
  | nil =>
      simp only [List.map_nil, List.append_nil, ← show s.waits.line = rest from h]
      exact .refl s
  | cons t ts ih =>
      have hdue : s.occur (.due 0) = { s with
          waits := { s.waits with line := ts ++ rest }
          ready := s.ready ++ [.alarm t.serial t.action] } := by
        simp only [occur, h, List.cons_append, List.getElem?_cons_zero, List.eraseIdx_cons_zero]
      have hrest := ih (s.occur (.due 0)) (by rw [hdue])
      rw [hdue] at hrest
      simp only [List.append_assoc, List.cons_append, List.nil_append] at hrest
      rw [List.map_cons]
      exact (hdue ▸ (Leads.refl s).occur (.due 0)).trans hrest

theorem leads_collectDue (s : Session δ) : Leads s s.collectDue :=
  leads_due _ _ s List.takeWhile_append_dropWhile.symm

theorem leads_runRounds (n : Nat) (s : Session δ) : Leads s (runRounds n s) := by
  induction n generalizing s with
  | zero => exact .refl s
  | succ n ih =>
      unfold runRounds
      extract_lets t
      have ht : Leads s t := s.leads_collectDue
      split
      · exact ht
      · exact ht.trans ((leads_runJobs _ t).trans (ih _))

/-- Settling is a course. -/
theorem leads_settle (s : Session δ) : Leads s s.settle := leads_runRounds _ s

section

variable {s : Session δ} {c d : Clock Float Alarm} {v : Session δ} {target : Float}
  {t : Timer Float Alarm}

/-- A timer comes up at its time. -/
theorem occur_tick_of_next? (hnext : c.next? target = some (t, d)) :
    ({ v with scheduler := c }.occur (.pass d.now v.waits.now)).occur (.tick 0) =
      if d.isCancelled t.serial then { v with scheduler := d }
      else { v with scheduler := d }.ring t.action := by
  obtain ⟨hline, hd⟩ := Clock.line_of_next? hnext
  obtain ⟨now, count, line, cancelled⟩ := c
  obtain ⟨now', count', line', cancelled'⟩ := d
  obtain rfl : line = t :: line' := hline
  cases hd
  rfl

theorem leads_next (h : Leads s { v with scheduler := c }) (hnext : c.next? target = some (t, d)) :
    Leads s (if d.isCancelled t.serial then { v with scheduler := d }
      else { v with scheduler := d }.ring t.action) := by
  rw [← occur_tick_of_next? hnext]
  exact (h.occur _).occur _

/-- Whether a course leads to a session with the clock that is moved by hand beside it. -/
def LeadsBeside (s : Session δ) (w : Clock Float Alarm × Session δ) : Prop :=
  Leads s { w.2 with scheduler := w.1 }

theorem LeadsBeside.refl (s : Session δ) : LeadsBeside s (s.scheduler, s) := Leads.refl s

theorem LeadsBeside.pass (h : LeadsBeside s (c, v)) (hnext : c.next? target = some (t, d))
    (hcancelled : d.isCancelled t.serial = true) : LeadsBeside s (d, v) := by
  have hlead := leads_next h hnext
  rwa [if_pos hcancelled] at hlead

theorem LeadsBeside.turn (h : LeadsBeside s (c, v)) (hnext : c.next? target = some (t, d))
    (hcancelled : d.isCancelled t.serial = false) :
    LeadsBeside s (ringByHand t.action (d, v)) := by
  have hlead := leads_next h hnext
  rwa [if_neg (by simp [hcancelled])] at hlead

theorem LeadsBeside.move (h : LeadsBeside s (c, v)) (now : Float) :
    LeadsBeside s ({ c with now }, v) := Leads.occur h (.pass now v.waits.now)

theorem leads_takeScheduler {moved : Option (Nat × Clock Float Alarm × Session δ)}
    (h : ∀ n w, moved = some (n, w) → LeadsBeside s w) : Leads s (s.takeScheduler moved).2 := by
  cases moved with
  | none => exact .refl s
  | some moved => exact h moved.1 moved.2 rfl

end

/-- Letting time pass is a course. -/
theorem leads_advance (s : Session δ) (milliseconds : Float) :
    Leads s (s.advance milliseconds).2 := by
  have hmove : ∀ t : Session δ, Leads t { t with
      waits := { t.waits with now := t.waits.now + milliseconds / 1000.0 } } := fun t =>
    (Leads.refl t).occur (.pass t.scheduler.now (t.waits.now + milliseconds / 1000.0))
  unfold advance
  split
  · refine (leads_takeScheduler fun _ _ hw => ?_).trans (hmove _)
    exact Clock.keeps_advance? LeadsBeside.pass LeadsBeside.turn (fun now h => h.move now)
      (.refl s) hw
  · exact hmove s

/-- Running all timers is a course. -/
theorem leads_runAll (s : Session δ) : Leads s s.runAll.2 :=
  leads_takeScheduler fun _ _ hw => Clock.keeps_runAll? LeadsBeside.pass LeadsBeside.turn
    (fun now h => h.move now) (.refl s) hw

end Retouch.Session
