/-
  The order in which timers run.

  While an exact clock is moved, timers come up one after the other (`Clock.Course`).  Each of them
  has a turn; it runs in its turn unless it was cancelled before, and its action may set further
  timers and cancel any.  The timers that have a turn are those due by the time that the clock is
  moved to, whether they stood in line before or were set along the way; each has one turn, at the
  time it is due, in order of due time and age (`Clock.InOrder`).  What holds of every move is
  `Clock.advance_inOrder`.

  All of it rests on one invariant of the clock (`Clock.Queued`), which every call keeps, and on one
  fact about a timer that had its turn: it is before all that stand in line or will be set
  (`Clock.Passed`).
-/
import Mathlib
import Retouch.Proofs.Clock.Debounced

namespace Retouch

/-- Whether a timer is to run before another: it is due earlier, or at the same time and was set
    earlier. -/
def Timer.Before {β : Type} (t u : Timer Rat β) : Prop :=
  t.due < u.due ∨ t.due = u.due ∧ t.serial < u.serial

theorem Timer.Before.due_le {β : Type} {t u : Timer Rat β} (h : t.Before u) : t.due ≤ u.due := by
  rcases h with h | ⟨h, -⟩
  · exact le_of_lt h
  · exact le_of_eq h

namespace Clock

variable {β σ : Type} {c d : Clock Rat β} {t u : Timer Rat β} {target : Rat}

/-! ## Timers in line -/

/-- Whether timers are in line in the order in which they are to run, none due before now and each
    set already. -/
structure Queued (c : Clock Rat β) : Prop where
  sorted : c.line.Pairwise Timer.Before
  ahead : ∀ t ∈ c.line, c.now ≤ t.due
  issued : ∀ t ∈ c.line, t.serial < c.count

theorem queued_start : (start : Clock Rat β).Queued where
  sorted := .nil
  ahead := nofun
  issued := nofun

theorem Queued.later (h : c.Queued) (delay : Rat) (action : β) : (c.later delay action).Queued where
  sorted := by
    refine pairwise_insert Timer.Before.due_le .inl h.sorted fun u hu hle => ?_
    rcases lt_or_eq_of_le hle with hlt | heq
    · exact .inl hlt
    · exact .inr ⟨heq, h.issued u hu⟩
  ahead u hu := by
    rcases mem_insert.mp hu with rfl | hu
    · exact c.now_le_due_later delay
    · exact h.ahead u hu
  issued u hu := by
    rcases mem_insert.mp hu with rfl | hu
    · exact Nat.lt_succ_self c.count
    · exact Nat.lt_succ_of_lt (h.issued u hu)

theorem Queued.cancel (h : c.Queued) (serial : Nat) : (c.cancel serial).Queued where
  sorted := h.sorted
  ahead := h.ahead
  issued := h.issued

/-- The timer that comes up is before all others, and the clock moves to its time. -/
theorem Queued.next (h : c.Queued) (hnext : c.next? target = some (t, d)) :
    c.line = t :: d.line ∧ d = { c with line := d.line, now := t.due } ∧ t.due ≤ target ∧
      (∀ u ∈ d.line, t.Before u) ∧ d.Queued := by
  obtain ⟨hline, hd, hdue⟩ := next_of_ahead h.ahead hnext
  obtain ⟨hfirst, hsorted⟩ := List.pairwise_cons.mp (hline ▸ h.sorted)
  refine ⟨hline, hd, hdue, hfirst, ?_⟩
  rw [hd]
  exact ⟨hsorted, fun u hu => (hfirst u hu).due_le,
    fun u hu => h.issued u (hline ▸ List.mem_cons_of_mem t hu)⟩

/-! ## Calls -/

/-- Whether a clock comes of another by timers that are set and cancelled, without being moved. -/
inductive Asked (c : Clock Rat β) : Clock Rat β → Prop where
  | nothing : Asked c c
  | later {d : Clock Rat β} (h : Asked c d) (delay : Rat) (action : β) :
      Asked c (d.later delay action)
  | cancel {d : Clock Rat β} (h : Asked c d) (serial : Nat) : Asked c (d.cancel serial)

/-- Calls do not move the clock. -/
theorem Asked.now_eq (h : Asked c d) : d.now = c.now := by
  induction h with
  | nothing => rfl
  | later _ _ _ ih => exact ih
  | cancel _ _ ih => exact ih

theorem Asked.queued (h : Asked c d) (hc : c.Queued) : d.Queued := by
  induction h with
  | nothing => exact hc
  | later _ delay action ih => exact ih.later delay action
  | cancel _ serial ih => exact ih.cancel serial

/-- Calls leave every timer in line. -/
theorem Asked.mem_line (h : Asked c d) (ht : t ∈ c.line) : t ∈ d.line := by
  induction h with
  | nothing => exact ht
  | later _ _ _ ih => exact mem_insert.mpr (.inr ih)
  | cancel _ _ ih => exact ih

/-- What was cancelled stays cancelled. -/
theorem Asked.mem_cancelled (h : Asked c d) {serial : Nat} (hserial : serial ∈ c.cancelled) :
    serial ∈ d.cancelled := by
  induction h with
  | nothing => exact hserial
  | later _ _ _ ih => exact ih
  | cancel _ _ ih => exact List.mem_cons_of_mem _ ih

/-- Whether a timer is over: the clock has reached its time, and it is before all timers that are
    in line or will be set. -/
structure Passed (t : Timer Rat β) (c : Clock Rat β) : Prop where
  reached : t.due ≤ c.now
  issued : t.serial < c.count
  first : ∀ u ∈ c.line, t.Before u

theorem Passed.asked (h : Passed t c) (hasked : Asked c d) : Passed t d := by
  induction hasked with
  | nothing => exact h
  | @later d _ delay action ih =>
      obtain ⟨hreached, hissued, hfirst⟩ := ih
      refine ⟨hreached, Nat.lt_succ_of_lt hissued, fun u hu => ?_⟩
      rcases mem_insert.mp hu with rfl | hu
      · -- A timer that is set now is due no earlier, and younger.
        rcases lt_or_eq_of_le (le_trans hreached (d.now_le_due_later delay)) with hlt | heq
        · exact .inl hlt
        · exact .inr ⟨heq, hissued⟩
      · exact hfirst u hu
  | cancel _ _ ih => exact ⟨ih.reached, ih.issued, ih.first⟩

theorem Passed.next (h : Passed t c) (hc : c.Queued) (hnext : c.next? target = some (u, d)) :
    t.Before u ∧ Passed t d := by
  obtain ⟨hline, hd, -, -, -⟩ := hc.next hnext
  have hu : t.Before u := h.first u (hline ▸ List.mem_cons_self)
  refine ⟨hu, ?_, ?_, fun v hv => h.first v (hline ▸ List.mem_cons_of_mem u hv)⟩
  · rw [hd]
    exact hu.due_le
  · rw [hd]
    exact h.issued

/-- A timer is over when its turn has come. -/
theorem Queued.passed_next (h : c.Queued) (hnext : c.next? target = some (t, d)) : Passed t d := by
  obtain ⟨hline, hd, -, hfirst, -⟩ := h.next hnext
  refine ⟨?_, ?_, hfirst⟩
  · rw [hd]
  · rw [hd]
    exact h.issued t (hline ▸ List.mem_cons_self)

/-! ## Turns -/

/-- A timer that comes up, and the clock and the state when its turn has come. -/
structure Turn (β σ : Type) where
  timer : Timer Rat β
  clock : Clock Rat β
  state : σ

namespace Turn

/-- Whether the timer runs: it was not cancelled. -/
def runs (e : Turn β σ) : Bool := !e.clock.isCancelled e.timer.serial

/-- The clock and the state after the turn. -/
def after (run : β → Clock Rat β × σ → Clock Rat β × σ) (e : Turn β σ) : Clock Rat β × σ :=
  if e.runs then run e.timer.action (e.clock, e.state) else (e.clock, e.state)

theorem runs_iff (e : Turn β σ) : e.runs = true ↔ e.timer.serial ∉ e.clock.cancelled := by
  simp [runs, isCancelled]

end Turn

/-- The turns that timers have one after the other, from one room to another in which none is due
    by a time. -/
inductive Course (run : β → Clock Rat β × σ → Clock Rat β × σ) (target : Rat) :
    Clock Rat β × σ → List (Turn β σ) → Clock Rat β × σ → Prop where
  | done {w : Clock Rat β × σ} (h : w.1.next? target = none) : Course run target w [] w
  | turn {c d : Clock Rat β} {s : σ} {t : Timer Rat β} {es : List (Turn β σ)}
      {v : Clock Rat β × σ} (h : c.next? target = some (t, d))
      (rest : Course run target (Turn.after run ⟨t, d, s⟩) es v) :
      Course run target (c, s) (⟨t, d, s⟩ :: es) v

variable {run : β → Clock Rat β × σ → Clock Rat β × σ} {w v : Clock Rat β × σ}
  {es : List (Turn β σ)}

/-- A clock that comes to its end has followed a course, and counted the timers that ran. -/
theorem exists_course {fuel n : Nat} (h : drain run target fuel w = some (n, v)) :
    ∃ es, Course run target w es v ∧ n = es.countP Turn.runs := by
  induction fuel generalizing n w with
  | zero => cases h
  | succ fuel ih =>
      obtain ⟨c, s⟩ := w
      unfold drain at h
      cases hnext : c.next? target with
      | none =>
          simp only [hnext] at h
          cases h
          exact ⟨[], .done hnext, rfl⟩
      | some next =>
          obtain ⟨t, d⟩ := next
          simp only [hnext] at h
          cases hcancelled : d.isCancelled t.serial with
          | true =>
              simp only [hcancelled, if_true] at h
              have hruns : Turn.runs ⟨t, d, s⟩ = false := by simp [Turn.runs, hcancelled]
              obtain ⟨es, hes, hn⟩ := ih h
              refine ⟨⟨t, d, s⟩ :: es, .turn hnext ?_, ?_⟩
              · rwa [Turn.after, hruns, if_neg Bool.false_ne_true]
              · rw [List.countP_cons, hruns, if_neg Bool.false_ne_true, Nat.add_zero, hn]
          | false =>
              simp only [hcancelled, Bool.false_eq_true, if_false] at h
              have hruns : Turn.runs ⟨t, d, s⟩ = true := by simp [Turn.runs, hcancelled]
              obtain ⟨⟨m, u⟩, hrest, hu⟩ := Option.map_eq_some_iff.mp h
              cases hu
              obtain ⟨es, hes, hm⟩ := ih hrest
              refine ⟨⟨t, d, s⟩ :: es, .turn hnext ?_, ?_⟩
              · rwa [Turn.after, hruns, if_pos rfl]
              · rw [List.countP_cons, hruns, if_pos rfl, hm]

/-- One more timer may come up for each turn of a course, so that the clock comes to its end. -/
theorem Course.drain_eq (h : Course run target w es v) :
    drain run target (es.length + 1) w = some (es.countP Turn.runs, v) := by
  induction h with
  | @done w h =>
      obtain ⟨c, s⟩ := w
      simp only [drain, h]
      rfl
  | @turn c d s t es v h rest ih =>
      rw [List.length_cons, drain, h, List.countP_cons]
      cases hcancelled : d.isCancelled t.serial with
      | true =>
          have hruns : Turn.runs ⟨t, d, s⟩ = false := by simp [Turn.runs, hcancelled]
          rw [Turn.after, hruns, if_neg Bool.false_ne_true] at ih
          simp only [hcancelled, if_true, hruns, Bool.false_eq_true, if_false]
          exact ih
      | false =>
          have hruns : Turn.runs ⟨t, d, s⟩ = true := by simp [Turn.runs, hcancelled]
          rw [Turn.after, hruns, if_pos rfl] at ih
          simp only [hcancelled, Bool.false_eq_true, if_false, hruns, if_true]
          rw [ih]
          rfl

/-- The clock comes to its end at the end of a course, and only there, whatever bounds it. -/
theorem exists_drain_iff {n : Nat} :
    (∃ fuel, drain run target fuel w = some (n, v)) ↔
      ∃ es, Course run target w es v ∧ n = es.countP Turn.runs := by
  constructor
  · exact fun ⟨_, h⟩ => exists_course h
  · rintro ⟨es, h, rfl⟩
    exact ⟨es.length + 1, h.drain_eq⟩

/-- Whether a timer stood in line before the turns, or was set in one of them. -/
def Came (run : β → Clock Rat β × σ → Clock Rat β × σ) (w : Clock Rat β × σ)
    (es : List (Turn β σ)) (t : Timer Rat β) : Prop :=
  t ∈ w.1.line ∨ ∃ e ∈ es, t ∈ (e.after run).1.line

section

variable (hcalls : ∀ action w, Asked w.1 (run action w).1)

include hcalls

/-- A turn makes calls, or none. -/
theorem Turn.asked_after (e : Turn β σ) : Asked e.clock (e.after run).1 := by
  unfold after
  split
  · exact hcalls e.timer.action (e.clock, e.state)
  · exact .nothing

theorem Course.queued (h : Course run target w es v) (hw : w.1.Queued) : v.1.Queued := by
  induction h with
  | done => exact hw
  | turn hnext _ ih =>
      exact ih ((Turn.asked_after hcalls _).queued (hw.next hnext).2.2.2.2)

/-- When the turns end, all timers in line are due after the target. -/
theorem Course.lt_due (h : Course run target w es v) (hw : w.1.Queued) :
    ∀ t ∈ v.1.line, target < t.due := by
  induction h with
  | done hnext => exact lt_due_of_sorted (hw.sorted.imp Timer.Before.due_le) hnext
  | turn hnext _ ih =>
      exact ih ((Turn.asked_after hcalls _).queued (hw.next hnext).2.2.2.2)

/-- A timer that is over is before all that have a turn after it. -/
theorem Course.before_of_passed (h : Course run target w es v) (hw : w.1.Queued)
    (hpassed : Passed t w.1) : ∀ e ∈ es, t.Before e.timer := by
  induction h with
  | done => exact nofun
  | @turn c d s u es v hnext rest ih =>
      have hasked : Asked d (Turn.after run ⟨u, d, s⟩).1 := Turn.asked_after hcalls ⟨u, d, s⟩
      obtain ⟨hbefore, hnow⟩ := hpassed.next hw hnext
      intro e he
      rcases List.mem_cons.mp he with rfl | he
      · exact hbefore
      · exact ih (hasked.queued (hw.next hnext).2.2.2.2) (hnow.asked hasked) e he

/-- Timers have their turns in order of due time and age. -/
theorem Course.sorted (h : Course run target w es v) (hw : w.1.Queued) :
    (es.map Turn.timer).Pairwise Timer.Before := by
  induction h with
  | done => exact .nil
  | @turn c d s t es v hnext rest ih =>
      have hasked : Asked d (Turn.after run ⟨t, d, s⟩).1 := Turn.asked_after hcalls ⟨t, d, s⟩
      have hqueued := hasked.queued (hw.next hnext).2.2.2.2
      -- The first timer is over when its turn has come, and stays so while its action sets others.
      refine List.pairwise_cons.mpr ⟨fun u hu => ?_, ih hqueued⟩
      obtain ⟨e, he, rfl⟩ := List.mem_map.mp hu
      exact rest.before_of_passed hcalls hqueued ((hw.passed_next hnext).asked hasked) e he

/-- Every timer has its turn when it is due, and its action does not move the clock. -/
theorem Course.now_eq (h : Course run target w es v) (hw : w.1.Queued) :
    ∀ e ∈ es, e.clock.now = e.timer.due ∧ (e.after run).1.now = e.timer.due ∧
      e.timer.due ≤ target := by
  induction h with
  | done => exact nofun
  | @turn c d s t es v hnext rest ih =>
      obtain ⟨-, hd, hdue, -, hqueued⟩ := hw.next hnext
      have hasked : Asked d (Turn.after run ⟨t, d, s⟩).1 := Turn.asked_after hcalls ⟨t, d, s⟩
      have hnow : d.now = t.due := by rw [hd]
      intro e he
      rcases List.mem_cons.mp he with rfl | he
      · exact ⟨hnow, hasked.now_eq.trans hnow, hdue⟩
      · exact ih (hasked.queued hqueued) e he

/-- Every timer that stood in line or was set has had its turn or stands in line still. -/
theorem Course.came_iff (h : Course run target w es v) (hw : w.1.Queued) :
    Came run w es t ↔ t ∈ es.map Turn.timer ∨ t ∈ v.1.line := by
  unfold Came
  induction h with
  | done => simp
  | @turn c d s u es v hnext rest ih =>
      obtain ⟨hline, -, -, -, hqueued⟩ := hw.next hnext
      have hline : c.line = u :: d.line := hline
      have hasked : Asked d (Turn.after run ⟨u, d, s⟩).1 := Turn.asked_after hcalls ⟨u, d, s⟩
      -- Of the timers in line, the first has its turn and the others are in line after it.
      simp only [hline, List.mem_cons, List.map_cons, exists_eq_or_imp, or_assoc]
      rw [← ih (hasked.queued hqueued)]
      constructor
      · rintro (rfl | ht | ht | ht)
        · exact .inl rfl
        · exact .inr (.inl (hasked.mem_line ht))
        · exact .inr (.inl ht)
        · exact .inr (.inr ht)
      · rintro (rfl | ht | ht)
        · exact .inl rfl
        · exact .inr (.inr (.inl ht))
        · exact .inr (.inr (.inr ht))

/-- A timer runs unless it was cancelled before the turns, or in a turn before its own. -/
theorem Course.runs_iff (h : Course run target w es v) (hw : w.1.Queued)
    {before rest : List (Turn β σ)} {e : Turn β σ} (hes : es = before ++ e :: rest) :
    e.runs = true ↔ e.timer.serial ∉ w.1.cancelled ∧
      ∀ x ∈ before, e.timer.serial ∉ (x.after run).1.cancelled := by
  induction h generalizing before with
  | done => exact absurd hes (by simp)
  | @turn c d s t es v hnext _ ih =>
      obtain ⟨-, hd, -, -, hqueued⟩ := hw.next hnext
      have hasked : Asked d (Turn.after run ⟨t, d, s⟩).1 := Turn.asked_after hcalls ⟨t, d, s⟩
      have hcancelled : d.cancelled = c.cancelled := by rw [hd]
      cases before with
      | nil =>
          obtain ⟨rfl, -⟩ := List.cons.inj hes
          simp [Turn.runs_iff, hcancelled]
      | cons first before =>
          obtain ⟨rfl, htail⟩ := List.cons.inj hes
          -- Nothing that was cancelled is taken back, so the first turn knows of all before it.
          rw [ih (hasked.queued hqueued) htail, List.forall_mem_cons]
          constructor
          · rintro ⟨hfirst, hbefore⟩
            refine ⟨fun hc => hfirst ?_, hfirst, hbefore⟩
            exact hasked.mem_cancelled (hcancelled ▸ hc)
          · exact fun ⟨_, hfirst, hbefore⟩ => ⟨hfirst, hbefore⟩

end

/-! ## Moves of the clock -/

/-- Whether turns are those of the timers that are due on the way to a time.  In order of due time
    and age, every timer that came into line by then and is due by then has one turn, at the time it
    is due; in its turn it runs unless it was cancelled before; and the others are left in line. -/
structure InOrder (run : β → Clock Rat β × σ → Clock Rat β × σ) (target : Rat)
    (w : Clock Rat β × σ) (es : List (Turn β σ)) (c : Clock Rat β) : Prop where
  sorted : (es.map Turn.timer).Pairwise Timer.Before
  due : ∀ t, t ∈ es.map Turn.timer ↔ Came run w es t ∧ t.due ≤ target
  left : ∀ t, t ∈ c.line ↔ Came run w es t ∧ target < t.due
  now_eq : ∀ e ∈ es, e.clock.now = e.timer.due ∧ (e.after run).1.now = e.timer.due
  steady : es.Pairwise fun e f => e.clock.now ≤ f.clock.now
  runs_iff : ∀ before e rest, es = before ++ e :: rest →
    (e.runs = true ↔ e.timer.serial ∉ w.1.cancelled ∧
      ∀ x ∈ before, e.timer.serial ∉ (x.after run).1.cancelled)

theorem Course.inOrder (h : Course run target w es v)
    (hcalls : ∀ action w, Asked w.1 (run action w).1) (hw : w.1.Queued) :
    InOrder run target w es v.1 := by
  have hsorted := h.sorted hcalls hw
  have hdue : ∀ t ∈ es.map Turn.timer, t.due ≤ target := by
    intro t ht
    obtain ⟨e, he, rfl⟩ := List.mem_map.mp ht
    exact (h.now_eq hcalls hw e he).2.2
  have hleft := h.lt_due hcalls hw
  have hcame : ∀ {t}, Came run w es t ↔ t ∈ es.map Turn.timer ∨ t ∈ v.1.line :=
    h.came_iff hcalls hw
  refine ⟨hsorted, fun t => ⟨fun ht => ⟨hcame.mpr (.inl ht), hdue t ht⟩, ?_⟩,
    fun t => ⟨fun ht => ⟨hcame.mpr (.inr ht), hleft t ht⟩, ?_⟩, fun e he => ?_, ?_,
    fun before e rest hes => h.runs_iff hcalls hw hes⟩
  · rintro ⟨ht, htarget⟩
    exact (hcame.mp ht).resolve_right fun hline => absurd htarget (not_le.mpr (hleft t hline))
  · rintro ⟨ht, htarget⟩
    exact (hcame.mp ht).resolve_left fun hturn => absurd (hdue t hturn) (not_le.mpr htarget)
  · obtain ⟨hnow, hafter, -⟩ := h.now_eq hcalls hw e he
    exact ⟨hnow, hafter⟩
  · refine (List.pairwise_map.mp hsorted).imp_of_mem fun he hf hbefore => ?_
    rw [(h.now_eq hcalls hw _ he).1, (h.now_eq hcalls hw _ hf).1]
    exact hbefore.due_le

/-- Moving a clock runs the timers that are due, in order, if their actions only set and cancel
    timers; it counts those that run, and leaves a clock of which the same is so. -/
theorem advance_inOrder {seconds : Rat} {fuel n : Nat}
    (hcalls : ∀ action w, Asked w.1 (run action w).1) (hw : w.1.Queued)
    (hadvance : advance? run fuel seconds w = some (n, v)) :
    ∃ es c, Course run (w.1.now + seconds) w es (c, v.2) ∧
      v.1 = { c with now := w.1.now + seconds } ∧
      InOrder run (w.1.now + seconds) w es v.1 ∧ n = (es.filter Turn.runs).length ∧
      v.1.Queued := by
  obtain ⟨⟨m, c, s⟩, hdrain, hv⟩ := Option.map_eq_some_iff.mp hadvance
  cases hv
  obtain ⟨es, hcourse, hm⟩ := exists_drain_iff.mp ⟨fuel, hdrain⟩
  have horder := hcourse.inOrder hcalls hw
  have hqueued := hcourse.queued hcalls hw
  have hahead : ∀ t ∈ c.line, w.1.now + seconds ≤ t.due := fun t ht =>
    le_of_lt ((horder.left t).mp ht).2
  refine ⟨es, c, hcourse, rfl, ?_, hm.trans List.countP_eq_length_filter,
    hqueued.sorted, hahead, hqueued.issued⟩
  -- The order is about the timers in line, which the last move of the clock leaves alone.
  exact ⟨horder.sorted, horder.due, horder.left, horder.now_eq, horder.steady, horder.runs_iff⟩

end Clock

/-! ## Windows and other timers -/

namespace Debounced

open Clock (Asked)

theorem asked_stop (window : Window Rat) {c d : Clock Rat Alarm} (h : Asked c d) :
    Asked c (window.stop d).2 := by
  unfold Window.stop
  split
  · exact h
  · exact h.cancel _

theorem asked_carryOut {c : Clock Rat Alarm} (call : Call) (r : Room) (h : Asked c r.1) :
    Asked c (call.carryOut r).1 := by
  cases call with
  | schedule => exact (asked_stop r.2.window h).later _ .windowEnd
  | cancel => exact asked_stop r.2.window h
  | flush => exact asked_stop r.2.window h
  | later delay => exact h.later delay .other
  | drop index =>
      simp only [Call.carryOut]
      split
      · exact h.cancel _
      · exact h

theorem asked_foldl {c : Clock Rat Alarm} (calls : List Call) (r : Room) (h : Asked c r.1) :
    Asked c (calls.foldl (fun r call => call.carryOut r) r).1 := by
  induction calls generalizing r with
  | nil => exact h
  | cons call calls ih => exact ih (call.carryOut r) (asked_carryOut call r h)

theorem asked_reply (r : Room) : Asked r.1 r.reply.1 := by
  unfold Room.reply
  split
  · exact .nothing
  · exact asked_foldl _ _ .nothing

/-- Whatever is done when a window ends or another timer runs, the clock is not moved by it. -/
theorem asked_ring (alarm : Alarm) (r : Room) : Asked r.1 (r.ring alarm).1 := by
  cases alarm with
  | windowEnd =>
      exact asked_reply (r.1,
        { r.2 with window := r.2.window.ended, journal := .expired r.1.now :: r.2.journal })
  | other => exact asked_reply r

end Debounced

namespace Clock

open Debounced (Room)

/-- Of two timers for the same time the first sets another one for now and cancels one that is due
    later, and the second sets one that is due on the way: four of the five that are due run. -/
theorem advance_inOrder_five :
    let r := (Room.start (1 / 2) [[.later 0, .drop 0], [.later (1 / 10)]]).follow
      [.call (.later (3 / 10)), .call (.later (1 / 10)), .call (.later (1 / 10)),
        .call (.later (2 / 5))]
    (∀ alarm w, Asked w.1 (Room.ring alarm w).1) ∧ r.1.Queued ∧
      ∃ es v, advance? Room.ring 9 (3 / 10) r = some (4, v) ∧
        InOrder Room.ring (3 / 10) r es v.1 ∧ (es.filter Turn.runs).length = 4 ∧
        v.1.line.map Timer.serial = [3] := by
  intro r
  have hqueued : r.1.Queued :=
    (Debounced.asked_foldl [.later (3 / 10), .later (1 / 10), .later (1 / 10), .later (2 / 5)]
      (Room.start (1 / 2) _) .nothing).queued queued_start
  obtain ⟨v, hadvance, hline⟩ : ∃ v, advance? Room.ring 9 (3 / 10) r = some (4, v) ∧
      v.1.line.map Timer.serial = [3] := ⟨_, by cbv, by cbv⟩
  obtain ⟨es, c, -, -, horder, hran, -⟩ := advance_inOrder Debounced.asked_ring hqueued hadvance
  have htarget : r.1.now + 3 / 10 = 3 / 10 := by cbv
  exact ⟨Debounced.asked_ring, hqueued, es, v, hadvance, htarget ▸ horder, hran.symm, hline⟩

end Clock

end Retouch
