/-
  Windows on an exact clock.

  The timers of a clock stand in line by due time, and none of them is due before now
  (`Clock.Ordered`).  Of the timers with the action of a window, one is live while the window is
  open, due when it ends, and none is live while it is closed (`Window.Ends`); the others in line
  were cancelled and are passed over.  Every operation of a clock or a window is one lemma about
  both; and what each turn of a timer keeps holds when the clock has moved (`Clock.exists_drain`).
-/
import Mathlib.Algebra.Order.Ring.Rat
import Retouch.Clock.Debounce
import Retouch.Proofs.Clock.Turns

namespace Retouch

theorem Scalar.max_eq (a b : Rat) : Scalar.max a b = Max.max a b := by
  unfold Scalar.max
  split
  case isTrue h => exact (max_eq_right (le_of_lt h)).symm
  case isFalse h => exact (max_eq_left (not_lt.mp h)).symm

namespace Clock

variable {β : Type} {c d : Clock Rat β} {t : Timer Rat β} {ts : List (Timer Rat β)} {target : Rat}

/-! ## Timers in line -/

/-- Timers that stand in an order by due time still do when a timer joins them behind those that
    are due no later. -/
theorem pairwise_insert {R : Timer Rat β → Timer Rat β → Prop}
    (due_le : ∀ {u v}, R u v → u.due ≤ v.due) (of_lt : ∀ {u v}, u.due < v.due → R u v)
    (h : ts.Pairwise R) (behind : ∀ u ∈ ts, u.due ≤ t.due → R u t) : (insert t ts).Pairwise R := by
  induction ts with
  | nil => exact List.pairwise_singleton _ _
  | cons u us ih =>
      obtain ⟨hu, hus⟩ := List.pairwise_cons.mp h
      unfold insert
      split
      case isTrue hle =>
        refine List.pairwise_cons.mpr ⟨fun v hv => ?_, ih hus fun v hv => behind v (.tail u hv)⟩
        rcases mem_insert.mp hv with rfl | hv
        · exact behind u List.mem_cons_self hle
        · exact hu v hv
      case isFalse hlt =>
        have hlt : t.due < u.due := not_le.mp hlt
        refine List.pairwise_cons.mpr ⟨fun v hv => of_lt ?_, h⟩
        rcases List.mem_cons.mp hv with rfl | hv
        · exact hlt
        · exact lt_of_lt_of_le hlt (due_le (hu v hv))

/-- No timer is set for a time before now. -/
theorem now_le_due_later (c : Clock Rat β) (delay : Rat) : c.now ≤ c.now + Scalar.max 0 delay := by
  rw [Scalar.max_eq]
  exact le_add_of_nonneg_right (le_max_left 0 delay)

/-- The timer that comes up is the first in line, and the clock moves to its time. -/
theorem next_of_ahead (ahead : ∀ t ∈ c.line, c.now ≤ t.due)
    (hnext : c.next? target = some (t, d)) :
    c.line = t :: d.line ∧ d = { c with line := d.line, now := t.due } ∧ t.due ≤ target := by
  unfold next? at hnext
  split at hnext
  · cases hnext
  · rename_i u us hline
    split at hnext
    · rename_i hdue
      cases hnext
      have hnow : Scalar.max c.now t.due = t.due := by
        rw [Scalar.max_eq]
        exact max_eq_right (ahead t (hline ▸ List.mem_cons_self))
      exact ⟨hline, by rw [hnow], hdue⟩
    · cases hnext

/-- If no timer comes up, all are due after the target. -/
theorem lt_due_of_sorted (sorted : c.line.Pairwise (·.due ≤ ·.due))
    (hnext : c.next? target = none) : ∀ t ∈ c.line, target < t.due := by
  intro u hu
  unfold next? at hnext
  split at hnext
  · rename_i hline
    rw [hline] at hu
    cases hu
  · rename_i t ts hline
    split at hnext
    · cases hnext
    · rename_i hdue
      have hfirst : target < t.due := not_le.mp hdue
      rw [hline] at hu
      rcases List.mem_cons.mp hu with rfl | hu
      · exact hfirst
      · exact lt_of_lt_of_le hfirst ((List.pairwise_cons.mp (hline ▸ sorted)).1 u hu)

/-- Whether timers are in line by due time, none due before now and each under a number of its own,
    and only timers that were set are cancelled. -/
structure Ordered (c : Clock Rat β) : Prop where
  sorted : c.line.Pairwise (·.due ≤ ·.due)
  ahead : ∀ t ∈ c.line, c.now ≤ t.due
  serials : (c.line.map Timer.serial).Nodup
  issued : ∀ t ∈ c.line, t.serial < c.count
  cancelled : ∀ n ∈ c.cancelled, n < c.count

theorem ordered_start : (start : Clock Rat β).Ordered where
  sorted := .nil
  ahead := nofun
  serials := List.nodup_nil
  issued := nofun
  cancelled := nofun

theorem Ordered.later (h : c.Ordered) (delay : Rat) (action : β) :
    (c.later delay action).Ordered where
  sorted := pairwise_insert id le_of_lt h.sorted fun _ _ hle => hle
  ahead u hu := by
    rcases mem_insert.mp hu with rfl | hu
    · exact c.now_le_due_later delay
    · exact h.ahead u hu
  serials := by
    refine ((perm_insert _ c.line).map Timer.serial).nodup_iff.mpr ?_
    refine List.nodup_cons.mpr ⟨fun hmem => ?_, h.serials⟩
    obtain ⟨u, hu, hserial⟩ := List.mem_map.mp hmem
    exact absurd (h.issued u hu) (hserial ▸ Nat.lt_irrefl c.count)
  issued u hu := by
    rcases mem_insert.mp hu with rfl | hu
    · exact Nat.lt_succ_self _
    · exact Nat.lt_succ_of_lt (h.issued u hu)
  cancelled n hn := Nat.lt_succ_of_lt (h.cancelled n hn)

theorem Ordered.cancel (h : c.Ordered) {n : Nat} (hn : n < c.count) : (c.cancel n).Ordered where
  sorted := h.sorted
  ahead := h.ahead
  serials := h.serials
  issued := h.issued
  cancelled m hm := by
    rcases List.mem_cons.mp hm with rfl | hm
    · exact hn
    · exact h.cancelled m hm

/-- The next timer is the first in line, and the clock moves to its time. -/
theorem Ordered.next (h : c.Ordered) (hnext : c.next? target = some (t, d)) :
    c.line = t :: d.line ∧ d = { c with line := d.line, now := t.due } ∧ t.due ≤ target ∧
      d.Ordered := by
  obtain ⟨hline, hd, hdue⟩ := next_of_ahead h.ahead hnext
  obtain ⟨hfirst, hsorted⟩ := List.pairwise_cons.mp (hline ▸ h.sorted)
  have hmem : ∀ v ∈ d.line, v ∈ c.line := fun v hv => hline ▸ List.mem_cons_of_mem t hv
  have hserials : (d.line.map Timer.serial).Nodup :=
    (List.nodup_cons.mp (by simpa [hline] using h.serials)).2
  refine ⟨hline, hd, hdue, ?_⟩
  rw [hd]
  exact ⟨hsorted, hfirst, hserials, fun v hv => h.issued v (hmem v hv), h.cancelled⟩

theorem Ordered.length_next_lt (h : c.Ordered) (hnext : c.next? target = some (t, d)) :
    d.line.length < c.line.length := by
  rw [(h.next hnext).1, List.length_cons]
  exact Nat.lt_succ_self _

/-- A clock may be moved to any time before all timers. -/
theorem Ordered.moved (h : c.Ordered) {now : Rat} (hnow : ∀ t ∈ c.line, now ≤ t.due) :
    Ordered { c with now } where
  sorted := h.sorted
  ahead := hnow
  serials := h.serials
  issued := h.issued
  cancelled := h.cancelled

/-- Timers come up until none is due any more, if there is less to come after each of them, and
    what holds along with how many actions ran is kept by each turn. -/
theorem exists_drain {σ : Type} (run : β → Clock Rat β × σ → Clock Rat β × σ)
    (I : Nat → Clock Rat β × σ → Prop) (load : Clock Rat β × σ → Nat)
    (ordered : ∀ {n w}, I n w → w.1.Ordered)
    (pass : ∀ {n c s t d}, I n (c, s) → c.next? target = some (t, d) →
      c.isCancelled t.serial = true → I n (d, s) ∧ load (d, s) < load (c, s))
    (turn : ∀ {n c s t d}, I n (c, s) → c.next? target = some (t, d) →
      c.isCancelled t.serial = false →
        I (n + 1) (run t.action (d, s)) ∧ load (run t.action (d, s)) < load (c, s))
    {fuel n : Nat} {w : Clock Rat β × σ} (h : I n w) (hfuel : load w < fuel) :
    ∃ m v, drain run target fuel w = some (m, v) ∧ I (n + m) v ∧
      ∀ t ∈ v.1.line, target < t.due := by
  induction fuel generalizing n w with
  | zero => exact absurd hfuel (Nat.not_lt_zero _)
  | succ fuel ih =>
      obtain ⟨c, s⟩ := w
      unfold drain
      cases hnext : c.next? target with
      | none => exact ⟨0, (c, s), rfl, h, lt_due_of_sorted (ordered h).sorted hnext⟩
      | some next =>
          obtain ⟨t, d⟩ := next
          have hkept : d.isCancelled = c.isCancelled := by
            rw [((ordered h).next hnext).2.1]
            rfl
          cases hcancelled : c.isCancelled t.serial with
          | true =>
              obtain ⟨hd, hless⟩ := pass h hnext hcancelled
              simp only [hkept, hcancelled, if_true]
              exact ih hd (Nat.lt_of_lt_of_le hless (Nat.le_of_lt_succ hfuel))
          | false =>
              obtain ⟨hrun, hless⟩ := turn h hnext hcancelled
              obtain ⟨m, v, hdrain, hv, hdue⟩ :=
                ih hrun (Nat.lt_of_lt_of_le hless (Nat.le_of_lt_succ hfuel))
              simp only [hkept, hcancelled, if_false, Bool.false_eq_true]
              -- `drain` counts on the way back, the invariant on the way there.
              refine ⟨m + 1, v, by rw [hdrain]; rfl, ?_, hdue⟩
              rwa [Nat.add_comm m, ← Nat.add_assoc]

/-! ## Live timers -/

variable [DecidableEq β] {a b : β}

/-- The timers in line with an action that were not cancelled. -/
def live (c : Clock Rat β) (a : β) : List (Timer Rat β) :=
  c.line.filter fun t => t.action = a && !c.isCancelled t.serial

theorem mem_live : t ∈ c.live a ↔ t ∈ c.line ∧ t.action = a ∧ t.serial ∉ c.cancelled := by
  simp [live, isCancelled]

theorem live_cancel (n : Nat) :
    (c.cancel n).live a = (c.live a).filter fun t => t.serial ≠ n := by
  unfold live
  rw [List.filter_filter]
  refine List.filter_congr fun t _ => ?_
  by_cases hn : t.serial = n
  · simp [isCancelled, cancel, hn]
  · simp [isCancelled, cancel, hn]

/-- A new timer is live, and changes nothing about the others. -/
theorem live_later_perm (h : c.Ordered) (delay : Rat) (b : β) :
    ((c.later delay b).live a).Perm
      (if b = a then ⟨c.now + Scalar.max 0 delay, c.count, b⟩ :: c.live a else c.live a) := by
  have hnew : c.isCancelled c.count = false := by
    simpa [isCancelled] using fun hmem => Nat.lt_irrefl _ (h.cancelled c.count hmem)
  refine ((perm_insert _ c.line).filter _).trans ?_
  rw [List.filter_cons]
  have hkept : (c.later delay b).isCancelled = c.isCancelled := rfl
  simp only [hkept, hnew]
  by_cases hb : b = a
  · simp only [hb, decide_true, Bool.not_false, Bool.and_true, if_true]
    exact .refl _
  · simp only [hb, decide_false, Bool.false_and, if_false, Bool.false_eq_true]
    exact .refl _

/-- A timer that is not live is passed over. -/
theorem Ordered.live_next (h : c.Ordered) (hnext : c.next? target = some (t, d)) :
    c.live a = if t.action = a && !c.isCancelled t.serial then t :: d.live a else d.live a := by
  obtain ⟨hline, hd, -, -⟩ := h.next hnext
  have hkept : d.isCancelled = c.isCancelled := by rw [hd]; rfl
  unfold live
  rw [hline, List.filter_cons, hkept]

end Clock

/-! ## The timer of a window -/

namespace Window

open Clock

variable {β : Type}

/-- A stop leaves the clock but for a timer that is cancelled. -/
theorem stop_eq (w : Window Rat) (c : Clock Rat β) :
    (w.stop c).1 = w.ended ∧ (w.stop c).2 = { c with cancelled := (w.stop c).2.cancelled } := by
  obtain ⟨length, _ | n⟩ := w
  · exact ⟨rfl, rfl⟩
  · exact ⟨rfl, rfl⟩

variable [DecidableEq β] {w : Window Rat} {c d : Clock Rat β} {a b : β} {o : Option Rat}
  {t : Timer Rat β} {target : Rat}

/-- Whether a window is closed, and then no timer with its action is live, or ends at a time, and
    then a single one is live and due at that time. -/
def Ends (w : Window Rat) (c : Clock Rat β) (a : β) : Option Rat → Prop
  | none => w.timer = none ∧ c.live a = []
  | some time => ∃ t, w.timer = some t.serial ∧ t.due = time ∧ c.live a = [t]

theorem Ends.isOpen_eq (h : w.Ends c a o) : w.isOpen = o.isSome := by
  cases o with
  | none => rw [isOpen, h.1]; rfl
  | some time =>
      obtain ⟨t, htimer, -⟩ := h
      rw [isOpen, htimer]
      rfl

theorem Ends.length_live (h : w.Ends c a o) :
    (c.live a).length = if w.isOpen then 1 else 0 := by
  rw [h.isOpen_eq]
  cases o with
  | none => rw [h.2]; rfl
  | some time =>
      obtain ⟨t, -, -, hlive⟩ := h
      rw [hlive]
      rfl

theorem Ends.of_live_eq (h : w.Ends c a o) (hlive : d.live a = c.live a) : w.Ends d a o := by
  cases o with
  | none => exact ⟨h.1, hlive.trans h.2⟩
  | some time =>
      obtain ⟨t, htimer, hdue, hc⟩ := h
      exact ⟨t, htimer, hdue, hlive.trans hc⟩

theorem Ends.of_perm (h : w.Ends c a o) (hlive : (d.live a).Perm (c.live a)) : w.Ends d a o := by
  refine h.of_live_eq ?_
  cases o with
  | none => rw [h.2] at hlive ⊢; exact hlive.eq_nil
  | some time =>
      obtain ⟨t, -, -, hc⟩ := h
      rw [hc] at hlive ⊢
      exact List.perm_singleton.mp hlive

/-- A timer stands in line for the end of an open window. -/
theorem Ends.exists_due {time : Rat} (h : w.Ends c a (some time)) :
    ∃ t ∈ c.line, t.due = time := by
  obtain ⟨t, -, hdue, hlive⟩ := h
  exact ⟨t, (mem_live.mp (hlive ▸ List.mem_singleton_self t)).1, hdue⟩

/-- The clock has not passed the end of an open window. -/
theorem Ends.now_le {time : Rat} (h : w.Ends c a (some time)) (hc : c.Ordered) : c.now ≤ time := by
  obtain ⟨t, ht, rfl⟩ := h.exists_due
  exact hc.ahead t ht

/-- Another timer does not matter to a window. -/
theorem Ends.later (h : w.Ends c a o) (hc : c.Ordered) (delay : Rat) (hb : b ≠ a) :
    w.Ends (c.later delay b) a o := by
  have hperm := live_later_perm (a := a) hc delay b
  rw [if_neg hb] at hperm
  exact h.of_perm hperm

/-- Neither does it that another timer is cancelled. -/
theorem Ends.cancel (h : w.Ends c a o) {n : Nat} (hn : ∀ t ∈ c.line, t.action = a → t.serial ≠ n) :
    w.Ends (c.cancel n) a o := by
  refine h.of_live_eq ?_
  rw [live_cancel, List.filter_eq_self]
  intro t ht
  obtain ⟨hline, haction, -⟩ := mem_live.mp ht
  exact decide_eq_true (hn t hline haction)

/-- A stop closes the window and cancels its timer. -/
theorem Ends.stop (h : w.Ends c a o) (hc : c.Ordered) :
    (w.stop c).1.Ends (w.stop c).2 a none ∧ (w.stop c).2.Ordered := by
  cases o with
  | none =>
      obtain ⟨htimer, hlive⟩ := h
      rw [Window.stop, htimer]
      exact ⟨⟨htimer, hlive⟩, hc⟩
  | some time =>
      obtain ⟨t, htimer, -, hlive⟩ := h
      have hline : t ∈ c.line := (mem_live.mp (hlive ▸ List.mem_singleton_self t)).1
      rw [Window.stop, htimer]
      refine ⟨⟨rfl, ?_⟩, hc.cancel (hc.issued t hline)⟩
      rw [live_cancel, hlive]
      simp

/-- A window that is started anew ends after its length, counted from now. -/
theorem Ends.restart (h : w.Ends c a o) (hc : c.Ordered) (hlength : 0 ≤ w.length) :
    (w.restart c a).1.Ends (w.restart c a).2 a (some (c.now + w.length)) ∧
      (w.restart c a).2.Ordered := by
  obtain ⟨hstopped, hordered⟩ := h.stop hc
  refine ⟨⟨⟨(w.stop c).2.now + Scalar.max 0 (w.stop c).1.length, (w.stop c).2.count, a⟩, rfl,
    ?_, ?_⟩, hordered.later _ a⟩
  · obtain ⟨hw, hd⟩ := w.stop_eq c
    show (w.stop c).2.now + Scalar.max 0 (w.stop c).1.length = _
    rw [hw, hd]
    show c.now + Scalar.max 0 w.length = _
    rw [Scalar.max_eq, max_eq_right hlength]
  · have hperm := live_later_perm (a := a) hordered (w.stop c).1.length a
    rw [if_pos rfl, hstopped.2] at hperm
    exact List.perm_singleton.mp hperm

/-- A timer that comes up and is not that of the window leaves the window as it is. -/
theorem Ends.pass (h : w.Ends c a o) (hc : c.Ordered) (hnext : c.next? target = some (t, d))
    (ht : t.action ≠ a ∨ c.isCancelled t.serial = true) : w.Ends d a o := by
  refine h.of_live_eq ?_
  rw [hc.live_next hnext, if_neg]
  rcases ht with hne | hcancelled
  · simp [hne]
  · simp [hcancelled]

/-- When a timer of the window comes up that was not cancelled, it is the end of the window. -/
theorem Ends.ring (h : w.Ends c a o) (hc : c.Ordered) (hnext : c.next? target = some (t, d))
    (haction : t.action = a) (hcancelled : c.isCancelled t.serial = false) :
    o = some t.due ∧ w.ended.Ends d a none := by
  have hlive : c.live a = t :: d.live a := by
    rw [hc.live_next hnext, if_pos]
    simp [haction, hcancelled]
  cases o with
  | none => exact nomatch h.2.symm.trans hlive
  | some time =>
      obtain ⟨u, -, rfl, hu⟩ := h
      obtain ⟨rfl, hd⟩ := List.cons.inj (hu.symm.trans hlive)
      exact ⟨rfl, rfl, hd.symm⟩

end Window

end Retouch
