/-
  What every turn of a timer keeps.

  A clock is moved by one timer coming up after the other, so what each turn keeps holds once the
  clock has moved, on any kind of numbers and in any order of the timers (`keeps_drain`,
  `keeps_advance?`, `keeps_runAll?`).
-/
import Mathlib.Data.List.Perm.Basic
import Retouch.Clock.Basic

namespace Retouch.Clock

variable {α β σ : Type} [Scalar α]

/-- A timer gets a place in line and moves no other one past another. -/
theorem perm_insert (t : Timer α β) (ts : List (Timer α β)) : (insert t ts).Perm (t :: ts) := by
  induction ts with
  | nil => exact .refl _
  | cons u us ih =>
      unfold insert
      split
      · exact (ih.cons u).trans (.swap t u us)
      · exact .refl _

/-- The timer that comes up is the first in line. -/
theorem line_of_next? {c d : Clock α β} {target : α} {t : Timer α β}
    (h : c.next? target = some (t, d)) :
    c.line = t :: d.line ∧ d = { c with line := d.line, now := d.now } := by
  unfold next? at h
  split at h
  · cases h
  · rename_i hline
    split at h
    · cases h
      exact ⟨hline, rfl⟩
    · cases h

variable {run : β → Clock α β × σ → Clock α β × σ} {I : Clock α β × σ → Prop}

/-- What is kept by a timer that is passed over, and by one that runs, is kept by all that come
    up. -/
theorem keeps_drain {target : α}
    (pass : ∀ {c s t d}, I (c, s) → c.next? target = some (t, d) → d.isCancelled t.serial = true →
      I (d, s))
    (turn : ∀ {c s t d}, I (c, s) → c.next? target = some (t, d) →
      d.isCancelled t.serial = false → I (run t.action (d, s)))
    {fuel n : Nat} {w v : Clock α β × σ} (h : I w)
    (hdrain : drain run target fuel w = some (n, v)) : I v := by
  induction fuel generalizing n w with
  | zero => cases hdrain
  | succ fuel ih =>
      obtain ⟨c, s⟩ := w
      unfold drain at hdrain
      cases hnext : c.next? target with
      | none =>
          simp only [hnext] at hdrain
          cases hdrain
          exact h
      | some next =>
          obtain ⟨t, d⟩ := next
          simp only [hnext] at hdrain
          cases hcancelled : d.isCancelled t.serial with
          | true =>
              simp only [hcancelled, if_true] at hdrain
              exact ih (pass h hnext hcancelled) hdrain
          | false =>
              simp only [hcancelled, Bool.false_eq_true, if_false] at hdrain
              obtain ⟨⟨m, u⟩, hrest, hu⟩ := Option.map_eq_some_iff.mp hdrain
              cases hu
              exact ih (turn h hnext hcancelled) hrest

variable (pass : ∀ {target c s t d}, I (c, s) → c.next? target = some (t, d) →
  d.isCancelled t.serial = true → I (d, s))
  (turn : ∀ {target c s t d}, I (c, s) → c.next? target = some (t, d) →
    d.isCancelled t.serial = false → I (run t.action (d, s)))
  (move : ∀ {c s} (now : α), I (c, s) → I ({ c with now }, s))

include pass turn move

theorem keeps_advance? {fuel n : Nat} {time : α} {w v : Clock α β × σ} (h : I w)
    (hadvance : advance? run fuel time w = some (n, v)) : I v := by
  obtain ⟨⟨m, c, s⟩, hdrain, hv⟩ := Option.map_eq_some_iff.mp hadvance
  cases hv
  exact move _ (keeps_drain pass turn h hdrain)

theorem keeps_runAll? {fuel rounds n : Nat} {w v : Clock α β × σ} (h : I w)
    (hall : runAll? run fuel rounds w = some (n, v)) : I v := by
  induction rounds generalizing w n with
  | zero => cases hall
  | succ rounds ih =>
      unfold runAll? at hall
      split at hall
      · cases hall
        exact h
      · obtain ⟨⟨m, u⟩, hadvance, hall⟩ := Option.bind_eq_some_iff.mp hall
        obtain ⟨⟨k, u'⟩, hrest, hall⟩ := Option.bind_eq_some_iff.mp hall
        cases hall
        exact ih (keeps_advance? pass turn move h hadvance) hrest

end Retouch.Clock
