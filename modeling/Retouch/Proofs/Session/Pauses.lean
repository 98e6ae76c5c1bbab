/-
  The pause that is left to end.

  A timer that ends a pause before a preview stands in line on a clock, or is due and stands among
  the jobs.  At most the one of the window is not cancelled (`Paused`): opening the window anew
  cancels it and sets one with a later number (`Paused.restart`), stopping the window cancels it
  (`Paused.stop`), and when its pause ends no other one is left (`Paused.cancelled_of_perm`).

  Nearly all that a session does concerns neither pauses nor requests, apart from cancelling more
  timers and taking jobs out of line (`Aside`).
-/
import Mathlib.Data.List.Perm.Subperm
import Mathlib.Data.Prod.Basic
import Retouch.Proofs.Session.Course
import Retouch.Proofs.Session.Frame

namespace Retouch.Session

variable {δ : Type}

/-! ## Timers of pauses -/

/-- The number of a timer that ends a pause before a preview. -/
def pauseOf? (t : Timer Float Alarm) : Option Nat :=
  match t.action with
  | .previewPause => some t.serial
  | _ => none

/-- The timers on a clock that end a pause before a preview. -/
def pausesOn (c : Clock Float Alarm) : List Nat := c.line.filterMap pauseOf?

/-- The number of the timer that a job has, if it ends a pause before a preview. -/
def Job.pause? : Job δ → Option Nat
  | .alarm serial .previewPause => some serial
  | _ => none

/-- The timers that end a pause before a preview, each with whether it is on the clock that is moved
by hand. -/
def pauses (s : Session δ) : List (Bool × Nat) :=
  (pausesOn s.scheduler).map (true, ·) ++
    (pausesOn s.waits ++ s.ready.filterMap Job.pause?).map (false, ·)

/-- The clock of the pauses. -/
def pauseClock (s : Session δ) : Clock Float Alarm := if s.byHand then s.scheduler else s.waits

theorem pauseClock_of_byHand {s : Session δ} (h : true = s.byHand) : s.pauseClock = s.scheduler :=
  if_pos h.symm

theorem pauseClock_of_not_byHand {s : Session δ} (h : false = s.byHand) :
    s.pauseClock = s.waits := by
  rw [pauseClock, ← h, if_neg Bool.false_ne_true]

/-! ## Requests -/

/-- The request that a job begins or ends in its place, with whether it begins. -/
def Job.start? : Job δ → Option (Nat × Bool)
  | .request id => some (id, true)
  | .requestOff id => some (id, false)
  | _ => none

/-- The requests that stand in line. -/
def starts (s : Session δ) : List (Nat × Bool) := s.ready.filterMap Job.start?

/-- The request that made a call. -/
def Call.request? (c : Call) : Option Nat :=
  match c.asker with
  | .preview id => some id
  | .errand _ _ => none

/-- The requests that stand in line or made a call. -/
def requests (s : Session δ) : List Nat := s.starts.map Prod.fst ++ s.calls.filterMap Call.request?

/-! ## What is left alone -/

/-- Whether a clock is another one with fewer pauses to end, or with more timers of other kinds or
more of them cancelled. -/
structure Spares (c d : Clock Float Alarm) : Prop where
  pauses : (pausesOn d).Subperm (pausesOn c)
  count : c.count ≤ d.count
  cancelled : ∀ n, c.isCancelled n = true → d.isCancelled n = true

namespace Spares

variable {c d e : Clock Float Alarm}

theorem refl (c : Clock Float Alarm) : Spares c c := ⟨.refl _, Nat.le_refl _, fun _ => id⟩

theorem trans (h : Spares c d) (h' : Spares d e) : Spares c e :=
  ⟨h'.pauses.trans h.pauses, Nat.le_trans h.count h'.count,
    fun n hn => h'.cancelled n (h.cancelled n hn)⟩

theorem cancel (c : Clock Float Alarm) (n : Nat) : Spares c (c.cancel n) where
  pauses := .refl _
  count := Nat.le_refl _
  cancelled k hk := by
    simp only [Clock.isCancelled, Clock.cancel, List.contains_cons, Bool.or_eq_true] at hk ⊢
    exact .inr hk

theorem later (c : Clock Float Alarm) (delay : Float) {a : Alarm} (ha : a ≠ .previewPause) :
    Spares c (c.later delay a) where
  pauses := by
    refine List.Perm.subperm ?_
    refine ((Clock.perm_insert _ _).filterMap pauseOf?).trans (.of_eq ?_)
    refine List.filterMap_cons_none ?_
    cases a with
    | previewPause => exact absurd rfl ha
    | historyPause => rfl
    | late n => rfl
  count := Nat.le_succ _
  cancelled _ := id

theorem stop (w : Window Float) (c : Clock Float Alarm) : Spares c (w.stop c).2 := by
  unfold Window.stop
  split
  · exact .refl c
  · exact .cancel c _

/-- The window of the history sets and cancels timers of its own. -/
theorem restart (w : Window Float) (c : Clock Float Alarm) {a : Alarm} (ha : a ≠ .previewPause) :
    Spares c (w.restart c a).2 := (Spares.stop w c).trans (.later _ _ ha)

theorem erase (c : Clock Float Alarm) (place : Nat) :
    Spares c { c with line := c.line.eraseIdx place } :=
  ⟨((List.eraseIdx_sublist _ _).filterMap _).subperm, Nat.le_refl _, fun _ => id⟩

end Spares

/-- Whether a session is another one as far as pauses are concerned, perhaps with fewer of them. -/
structure Calm (s t : Session δ) : Prop where
  byHand : t.byHand = s.byHand
  timer : t.previewWindow.timer = s.previewWindow.timer
  pauses : t.pauses.Subperm s.pauses
  clock : Spares s.pauseClock t.pauseClock

theorem Calm.trans {s t u : Session δ} (h : Calm s t) (h' : Calm t u) : Calm s u where
  byHand := h'.byHand.trans h.byHand
  timer := h'.timer.trans h.timer
  pauses := h'.pauses.trans h.pauses
  clock := h.clock.trans h'.clock

/-- Only its clocks, its window and its line matter. -/
theorem Calm.of_eq {s t : Session δ} (hbyHand : t.byHand = s.byHand)
    (hwindow : t.previewWindow = s.previewWindow) (hscheduler : t.scheduler = s.scheduler)
    (hwaits : t.waits = s.waits)
    (hready : t.ready.filterMap Job.pause? = s.ready.filterMap Job.pause?) : Calm s t where
  byHand := hbyHand
  timer := by rw [hwindow]
  pauses := by
    unfold Session.pauses
    rw [hscheduler, hwaits, hready]
  clock := by
    unfold pauseClock
    rw [hbyHand, hscheduler, hwaits]
    exact .refl _

theorem Calm.refl (s : Session δ) : Calm s s := .of_eq rfl rfl rfl rfl rfl

/-- Whether a session is another one as far as pauses and requests are concerned, perhaps with fewer
of them in line. -/
structure Aside (s t : Session δ) : Prop extends Calm s t where
  running : t.preview.running = s.preview.running
  latest : t.preview.latest = s.preview.latest
  current : t.preview.current = s.preview.current
  starts : t.starts.Sublist s.starts
  calls : t.calls = s.calls

namespace Aside

variable {s t u : Session δ}

theorem trans (h : Aside s t) (h' : Aside t u) : Aside s u where
  toCalm := h.toCalm.trans h'.toCalm
  running := h'.running.trans h.running
  latest := h'.latest.trans h.latest
  current := h'.current.trans h.current
  starts := h'.starts.trans h.starts
  calls := h'.calls.trans h.calls

/-- A session that differs only in its subject and generator, in who waits and in what was heard. -/
theorem of_eq (hbyHand : t.byHand = s.byHand) (hwindow : t.previewWindow = s.previewWindow)
    (hscheduler : t.scheduler = s.scheduler) (hwaits : t.waits = s.waits)
    (hready : t.ready = s.ready) (hpreview : t.preview = s.preview) (hcalls : t.calls = s.calls) :
    Aside s t where
  toCalm := .of_eq hbyHand hwindow hscheduler hwaits (by rw [hready])
  running := by rw [hpreview]
  latest := by rw [hpreview]
  current := by rw [hpreview]
  starts := by
    unfold Session.starts
    rw [hready]
  calls := hcalls

theorem refl (s : Session δ) : Aside s s := .of_eq rfl rfl rfl rfl rfl rfl rfl

theorem foldl {α : Type} {f : Session δ → α → Session δ} (h : ∀ s a, Aside s (f s a)) (as : List α)
    (s : Session δ) : Aside s (as.foldl f s) := by
  induction as generalizing s with
  | nil => exact refl s
  | cons a as ih => exact (h s a).trans (ih (f s a))

/-- Clocks that are spared. -/
theorem clocks (s : Session δ) {c d : Clock Float Alarm} (hc : Spares s.scheduler c)
    (hd : Spares s.waits d) : Aside s { s with scheduler := c, waits := d } where
  byHand := rfl
  timer := rfl
  pauses :=
    (hc.pauses.map (Prod.mk_right_injective true)).append
      ((hd.pauses.append (.refl _)).map (Prod.mk_right_injective false))
  clock := by
    unfold pauseClock
    dsimp only
    split
    · exact hc
    · exact hd
  running := rfl
  latest := rfl
  current := rfl
  starts := .refl _
  calls := rfl

end Aside

/-! ## Steps -/

theorem calm_enqueue (s : Session δ) {j : Job δ} (hpause : j.pause? = none) :
    Calm s (s.enqueue j) := by
  refine .of_eq rfl rfl rfl rfl ?_
  unfold enqueue
  rw [List.filterMap_append, List.filterMap_cons_none hpause, List.filterMap_nil, List.append_nil]

theorem aside_enqueue (s : Session δ) {j : Job δ} (hpause : j.pause? = none)
    (hstart : j.start? = none) : Aside s (s.enqueue j) where
  byHand := rfl
  timer := rfl
  pauses := by
    unfold pauses enqueue
    rw [List.filterMap_append, List.filterMap_cons_none hpause, List.filterMap_nil, List.append_nil]
  clock := .refl _
  running := rfl
  latest := rfl
  current := rfl
  starts := by
    unfold starts enqueue
    rw [List.filterMap_append, List.filterMap_cons_none hstart, List.filterMap_nil, List.append_nil]
  calls := rfl

theorem aside_log (s : Session δ) (e : Event) : Aside s (s.log e) :=
  .of_eq rfl rfl rfl rfl rfl rfl rfl

theorem aside_finish (s : Session δ) (n : Nat) (r : Finish) : Aside s (s.finish n r) :=
  aside_log s _

/-- A job that runs leaves the line. -/
theorem aside_eraseIdx (s : Session δ) (place : Nat) :
    Aside s { s with ready := s.ready.eraseIdx place } where
  byHand := rfl
  timer := rfl
  pauses := by
    refine List.Subperm.append (.refl _) (List.Subperm.map (Prod.mk_right_injective false) ?_)
    exact List.Subperm.append (.refl _) ((List.eraseIdx_sublist _ _).filterMap _).subperm
  clock := .refl _
  running := rfl
  latest := rfl
  current := rfl
  starts := (List.eraseIdx_sublist _ _).filterMap _
  calls := rfl

theorem aside_wakeAll (s : Session δ) (shown : Option Bool) : Aside s (s.wakeAll shown) := by
  have hwake : ∀ (s : Session δ) (w : Watcher), Aside s (wake shown s w) := by
    intro s w
    unfold wake
    extract_lets t
    have ht : Aside s t := by
      simp only [t]
      split
      · exact .clocks s (.refl _) (.cancel _ _)
      · exact .refl s
    exact ht.trans (aside_enqueue t rfl rfl)
  have hnone : Aside s { s with watchers := [] } := .of_eq rfl rfl rfl rfl rfl rfl rfl
  exact hnone.trans (Aside.foldl hwake _ _)

theorem aside_wakeIdlers (s : Session δ) (id : Nat) : Aside s (s.wakeIdlers id) := by
  unfold wakeIdlers
  split
  rename_i woken others _
  have hothers : Aside s { s with idlers := others } := .of_eq rfl rfl rfl rfl rfl rfl rfl
  exact hothers.trans (Aside.foldl (fun s w => aside_enqueue s rfl rfl) _ _)

theorem aside_watch (s : Session δ) (n : Nat) (announces : Bool) (timeout : Option Float) :
    Aside s (s.watch n announces timeout) := by
  unfold watch
  split
  · exact .of_eq rfl rfl rfl rfl rfl rfl rfl
  · rename_i seconds
    split
    · exact aside_enqueue s rfl rfl
    · have hlater : Spares s.waits (s.waits.later seconds (.late n)) :=
        .later _ _ (fun h => by cases h)
      exact (Aside.clocks s (.refl _) hlater).trans (.of_eq rfl rfl rfl rfl rfl rfl rfl)

/-- Working the window of the history. -/
theorem aside_onPauseClock (s : Session δ)
    {f : Clock Float Alarm → Window Float × Clock Float Alarm} (hf : ∀ c, Spares c (f c).2) :
    Aside s { (s.onPauseClock f).2 with historyWindow := (s.onPauseClock f).1 } := by
  unfold onPauseClock
  split
  · exact (Aside.clocks s (hf _) (.refl _)).trans (.of_eq rfl rfl rfl rfl rfl rfl rfl)
  · exact (Aside.clocks s (.refl _) (hf _)).trans (.of_eq rfl rfl rfl rfl rfl rfl rfl)

theorem aside_restartHistoryWindow (s : Session δ) : Aside s s.restartHistoryWindow :=
  aside_onPauseClock s fun _ => Spares.restart _ _ (fun h => by cases h)

theorem aside_stopHistoryWindow (s : Session δ) : Aside s s.stopHistoryWindow :=
  aside_onPauseClock s fun _ => Spares.stop _ _

theorem aside_notify [Subject δ] (s : Session δ) (e : Event) : Aside s (s.notify e) := by
  unfold notify
  split
  · exact aside_log s e
  · exact .refl s

theorem aside_resume [Subject δ] (s : Session δ) (n : Nat) (announces : Bool)
    (shown : Option Bool) : Aside s (s.resume n announces shown) := by
  unfold resume
  split
  · exact aside_finish s n _
  · split
    · split
      · exact aside_finish s n _
      · exact aside_finish s n _
      · exact (aside_notify s _).trans (aside_finish _ n _)
    · exact aside_finish s n _

/-! ## The pause that is left to end -/

/-- Whether at most the timer of the window ends a pause, and none that is older than a number:
every other one was cancelled. -/
structure Paused (old : Nat) (s : Session δ) : Prop where
  nodup : s.pauses.Nodup
  clock : ∀ p ∈ s.pauses, p.1 = s.byHand ∧ p.2 < s.pauseClock.count
  live : ∀ p ∈ s.pauses, s.pauseClock.isCancelled p.2 = false →
    s.previewWindow.timer = some p.2 ∧ old ≤ p.2
  base : old ≤ s.pauseClock.count

/-- A session with another clock of the pauses. -/
def setPauseClock (s : Session δ) (c : Clock Float Alarm) : Session δ :=
  if s.byHand then { s with scheduler := c } else { s with waits := c }

/-- The timers of pauses that are not on the clock of the pauses. -/
def pausesElsewhere (s : Session δ) : List (Bool × Nat) :=
  if s.byHand then (pausesOn s.waits ++ s.ready.filterMap Job.pause?).map (false, ·)
  else (pausesOn s.scheduler).map (true, ·) ++ (s.ready.filterMap Job.pause?).map (false, ·)

theorem perm_pauses (s : Session δ) :
    s.pauses.Perm ((pausesOn s.pauseClock).map (s.byHand, ·) ++ s.pausesElsewhere) := by
  unfold pauses pauseClock pausesElsewhere
  cases s.byHand with
  | true => exact .refl _
  | false =>
      simp only [Bool.false_eq_true, if_false, List.map_append]
      rw [← List.append_assoc, ← List.append_assoc]
      exact List.perm_append_comm.append_right _

section

variable {old : Nat} {s t : Session δ} {c : Clock Float Alarm}

theorem pauseClock_set (s : Session δ) (c : Clock Float Alarm) :
    (s.setPauseClock c).pauseClock = c := by
  unfold setPauseClock
  split
  · rename_i hb
    exact if_pos hb
  · rename_i hb
    exact if_neg hb

theorem pausesElsewhere_set (s : Session δ) (c : Clock Float Alarm) :
    (s.setPauseClock c).pausesElsewhere = s.pausesElsewhere := by
  unfold setPauseClock pausesElsewhere
  cases s.byHand with
  | true => rfl
  | false => rfl

theorem byHand_set (s : Session δ) (c : Clock Float Alarm) :
    (s.setPauseClock c).byHand = s.byHand := by
  unfold setPauseClock
  split
  · rfl
  · rfl

theorem onPauseClock_eq (s : Session δ)
    (f : Clock Float Alarm → Window Float × Clock Float Alarm) :
    s.onPauseClock f = ((f s.pauseClock).1, s.setPauseClock (f s.pauseClock).2) := by
  unfold onPauseClock setPauseClock pauseClock
  split
  · rfl
  · rfl

theorem Paused.calm (h : Paused old s) (ha : Calm s t) : Paused old t where
  nodup := by
    obtain ⟨l, hperm, hsub⟩ := ha.pauses
    exact hperm.nodup_iff.mp (h.nodup.sublist hsub)
  clock p hp := by
    obtain ⟨hclock, hcount⟩ := h.clock p (ha.pauses.subset hp)
    exact ⟨hclock.trans ha.byHand.symm, Nat.lt_of_lt_of_le hcount ha.clock.count⟩
  live p hp hlive := by
    rw [ha.timer]
    refine h.live p (ha.pauses.subset hp) ?_
    cases hcancelled : s.pauseClock.isCancelled p.2 with
    | false => rfl
    | true => exact absurd (ha.clock.cancelled _ hcancelled) (by simp [hlive])
  base := Nat.le_trans h.base ha.clock.count

theorem Paused.mono (h : Paused old s) {earlier : Nat} (hle : earlier ≤ old) :
    Paused earlier s where
  nodup := h.nodup
  clock := h.clock
  live p hp hlive := ⟨(h.live p hp hlive).1, Nat.le_trans hle (h.live p hp hlive).2⟩
  base := Nat.le_trans hle h.base

/-- A session in which no pause is left to end. -/
theorem Paused.of_cancelled (h : Paused old s)
    (hall : ∀ p ∈ s.pauses, s.pauseClock.isCancelled p.2 = true) :
    Paused s.pauseClock.count s where
  nodup := h.nodup
  clock := h.clock
  live p hp hlive := by
    rw [hall p hp] at hlive
    cases hlive
  base := Nat.le_refl _

/-- The window on its clock, closed. -/
theorem stopPreviewWindow_eq (s : Session δ) :
    s.stopPreviewWindow =
      { s.setPauseClock (s.previewWindow.stop s.pauseClock).2 with
        previewWindow := s.previewWindow.ended } := by
  unfold stopPreviewWindow
  rw [onPauseClock_eq]
  have hended : (s.previewWindow.stop s.pauseClock).1 = s.previewWindow.ended := by
    unfold Window.stop
    split
    · rename_i hnone
      unfold Window.ended
      rw [← hnone]
    · rfl
  rw [hended]

/-- A window that is stopped cancels its timer, so that no pause is left to end. -/
theorem Paused.stop (h : Paused old s) :
    Paused old s.stopPreviewWindow ∧
      ∀ p ∈ s.stopPreviewWindow.pauses,
        s.stopPreviewWindow.pauseClock.isCancelled p.2 = true := by
  let c := (s.previewWindow.stop s.pauseClock).2
  have hspares : Spares s.pauseClock c := Spares.stop _ _
  have hline : c.line = s.pauseClock.line ∧ c.count = s.pauseClock.count := by
    unfold c Window.stop
    split
    · exact ⟨rfl, rfl⟩
    · exact ⟨rfl, rfl⟩
  have hclock : s.stopPreviewWindow.pauseClock = c := by
    rw [stopPreviewWindow_eq]
    exact pauseClock_set s c
  have hbyHand : s.stopPreviewWindow.byHand = s.byHand := by
    rw [stopPreviewWindow_eq]
    exact byHand_set s c
  have hpauses : s.stopPreviewWindow.pauses.Perm s.pauses := by
    have hset : s.stopPreviewWindow.pauses = (s.setPauseClock c).pauses := by
      rw [stopPreviewWindow_eq]
      rfl
    rw [hset]
    refine (perm_pauses _).trans (.trans (.of_eq ?_) (perm_pauses s).symm)
    rw [pauseClock_set, pausesElsewhere_set, byHand_set, pausesOn, hline.1, pausesOn]
  have hall : ∀ p ∈ s.stopPreviewWindow.pauses, c.isCancelled p.2 = true := by
    intro p hp
    cases hlive : s.pauseClock.isCancelled p.2 with
    | true => exact hspares.cancelled _ hlive
    | false =>
        have htimer := (h.live p (hpauses.subset hp) hlive).1
        simp [c, Window.stop, htimer, Clock.isCancelled, Clock.cancel]
  rw [hclock]
  refine ⟨⟨hpauses.nodup_iff.mpr h.nodup, ?_, ?_, ?_⟩, hall⟩
  · intro p hp
    rw [hbyHand, hclock, hline.2]
    exact h.clock p (hpauses.subset hp)
  · intro p hp hlive
    rw [hclock, hall p hp] at hlive
    cases hlive
  · rw [hclock, hline.2]
    exact h.base

/-- Opens the window anew: it is closed, and a timer is set. -/
theorem restartPreviewWindow_eq (s : Session δ) :
    s.restartPreviewWindow =
      { s.stopPreviewWindow.setPauseClock
          (s.stopPreviewWindow.pauseClock.later s.previewWindow.length .previewPause) with
        previewWindow :=
          { s.previewWindow with timer := some s.stopPreviewWindow.pauseClock.count } } := by
  unfold restartPreviewWindow
  rw [onPauseClock_eq, stopPreviewWindow_eq]
  unfold Window.restart Window.stop setPauseClock pauseClock
  cases s.byHand with
  | true =>
      cases s.previewWindow.timer with
      | none => rfl
      | some n => rfl
  | false =>
      cases s.previewWindow.timer with
      | none => rfl
      | some n => rfl

/-- A window that is opened has the only pause that is left to end, and its timer is new. -/
theorem Paused.restart (h : Paused old s) : Paused old s.restartPreviewWindow := by
  obtain ⟨hstop, hall⟩ := h.stop
  rw [restartPreviewWindow_eq]
  generalize s.stopPreviewWindow = t at hstop hall
  let c := t.pauseClock.later s.previewWindow.length .previewPause
  let u : Session δ :=
    { t.setPauseClock c with
      previewWindow := { s.previewWindow with timer := some t.pauseClock.count } }
  show Paused old u
  have hclock : u.pauseClock = c := pauseClock_set t c
  have hbyHand : u.byHand = t.byHand := byHand_set t c
  have hpauses : u.pauses.Perm ((t.byHand, t.pauseClock.count) :: t.pauses) := by
    have hon : (pausesOn c).Perm (t.pauseClock.count :: pausesOn t.pauseClock) :=
      (Clock.perm_insert _ _).filterMap pauseOf?
    have hset : u.pauses.Perm ((pausesOn c).map (t.byHand, ·) ++ t.pausesElsewhere) := by
      refine (perm_pauses (t.setPauseClock c)).trans (.of_eq ?_)
      rw [pauseClock_set, pausesElsewhere_set, byHand_set]
    refine hset.trans (((hon.map _).append_right _).trans ?_)
    exact (perm_pauses t).symm.cons _
  have hnew : (t.byHand, t.pauseClock.count) ∉ t.pauses := fun hmem =>
    Nat.lt_irrefl _ (hstop.clock _ hmem).2
  refine ⟨hpauses.nodup_iff.mpr (List.nodup_cons.mpr ⟨hnew, hstop.nodup⟩), ?_, ?_, ?_⟩
  · intro p hp
    rw [hbyHand, hclock]
    rcases List.mem_cons.mp (hpauses.subset hp) with rfl | hp
    · exact ⟨rfl, Nat.lt_succ_self _⟩
    · exact ⟨(hstop.clock p hp).1, Nat.lt_succ_of_lt (hstop.clock p hp).2⟩
  · intro p hp hlive
    rcases List.mem_cons.mp (hpauses.subset hp) with rfl | hp
    · exact ⟨rfl, hstop.base⟩
    · rw [hclock] at hlive
      exact (Bool.false_ne_true (hlive.symm.trans (hall p hp))).elim
  · rw [hclock]
    exact Nat.le_succ_of_le hstop.base

/-- When the pause of the window ends no other one is left to end. -/
theorem Paused.ended (h : Paused old s)
    (hall : ∀ p ∈ s.pauses, s.pauseClock.isCancelled p.2 = true) :
    Paused old { s with previewWindow := s.previewWindow.ended } where
  nodup := h.nodup
  clock := h.clock
  live p hp hlive := (Bool.false_ne_true (hlive.symm.trans (hall p hp))).elim
  base := h.base

/-- A pause whose timer was taken out of line was the only one that was left to end. -/
theorem Paused.cancelled_of_perm (h : Paused old s) {n : Nat}
    (hperm : ((s.byHand, n) :: t.pauses).Perm s.pauses) (hlive : s.pauseClock.isCancelled n = false)
    (hclock : t.pauseClock.isCancelled = s.pauseClock.isCancelled) :
    ∀ p ∈ t.pauses, t.pauseClock.isCancelled p.2 = true := by
  intro p hp
  have hmem : p ∈ s.pauses := hperm.subset (List.mem_cons_of_mem _ hp)
  rw [hclock]
  cases hcancelled : s.pauseClock.isCancelled p.2 with
  | true => rfl
  | false =>
      have htimer := (h.live _ (hperm.subset List.mem_cons_self) hlive).1
      have hother := (h.live p hmem hcancelled).1
      have heq : p = (s.byHand, n) :=
        Prod.ext (h.clock p hmem).1 (Option.some.inj (hother.symm.trans htimer))
      exact absurd (heq ▸ hp) (List.nodup_cons.mp (hperm.nodup_iff.mpr h.nodup)).1

end

end Retouch.Session
