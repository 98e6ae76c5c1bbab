/-
  One entry for a burst of changes.

  The pause of a recorder is a window, and on its clock there are no other timers
  (`Recorder.Steady`).  So a move of the clock either leaves the capture waiting or ends the pause
  once (`Ends.advance`), and captures that follow each other within the length of the window keep
  putting the end off (`Waits.follow`).  What becomes an entry then is the tree before the first of
  them; but where a capture was left from before, which `cancel` keeps, it is that one.

  Main result: the action of a window runs at its end unless another call comes first, and a burst
  makes one entry (`debounces_and_commits_once`).
-/
import Mathlib
import Retouch.History.Recorder
import Retouch.Proofs.Clock.Debounced
import Retouch.Proofs.History.Cursor

namespace Retouch

instance : DecidableEq Pause := fun .over .over => isTrue rfl

namespace Recorder

open Clock

/-! ## What can happen to a recorder -/

/-- What can happen to a recorder. -/
inductive Beat where
  /-- Another tree becomes the current one. -/
  | set (s : State)
  | record
  | edit (s : State)
  | checkpoint
  | flush
  | cancel
  | clear
  | undo
  | redo
  | advance (seconds : Rat)

/-- The recorder after something happened. -/
def take (r : Recorder Rat) : Beat → Recorder Rat
  | .set s => { r with current := s }
  | .record => r.record.1
  | .edit s => (r.edit s).1
  | .checkpoint => r.checkpoint.1
  | .flush => r.flush.1
  | .cancel => r.cancel.1
  | .clear => r.clear.1
  | .undo => r.undo.2.1
  | .redo => r.redo.2.1
  | .advance seconds => (r.advance seconds).2.1

/-- The recorder after several things happened. -/
def follow (r : Recorder Rat) (beats : List Beat) : Recorder Rat := beats.foldl take r

variable {length : Rat} {r : Recorder Rat} {c : Clock Rat Pause} {o : Option Rat}

/-! ## The window of a recorder -/

/-- Whether the window of a recorder ends at a time, or is closed. -/
structure Ends (length : Rat) (r : Recorder Rat) (o : Option Rat) : Prop where
  ordered : r.clock.Ordered
  lasts : r.window.length = length
  ends : r.window.Ends r.clock .over o

/-- What is no matter of the clock and the window may be anything. -/
theorem Ends.of_eq {r' : Recorder Rat} (h : r.Ends length o) (hwindow : r'.window = r.window)
    (hclock : r'.clock = r.clock) : r'.Ends length o := by
  refine ⟨?_, ?_, ?_⟩
  · rw [hclock]
    exact h.ordered
  · rw [hwindow]
    exact h.lasts
  · rw [hwindow, hclock]
    exact h.ends

/-- Whether the window of a recorder is either closed or open. -/
def Steady (length : Rat) (r : Recorder Rat) : Prop := ∃ o, r.Ends length o

theorem steady_start (current : State) (limit : Int) (length : Rat) :
    (Recorder.start current limit length).Steady length :=
  ⟨none, ordered_start, rfl, rfl, rfl⟩

theorem Ends.perform (h : r.Ends length o) (hlength : 0 ≤ length) (e : History.Effect) :
    (r.perform e).Ends length
      (match e with
        | .changed => o
        | .restartWindow => some (r.clock.now + length)
        | .stopWindow => none) := by
  have hw := (r.window.stop_eq r.clock).1
  cases e with
  | changed => exact h
  | restartWindow =>
      obtain ⟨hends, hordered⟩ := h.ends.restart h.ordered (h.lasts.symm ▸ hlength)
      refine ⟨hordered, ?_, h.lasts ▸ hends⟩
      show (r.window.stop r.clock).1.length = length
      rw [hw]
      exact h.lasts
  | stopWindow =>
      obtain ⟨hends, hordered⟩ := h.ends.stop h.ordered
      refine ⟨hordered, ?_, hends⟩
      show (r.window.stop r.clock).1.length = length
      rw [hw]
      exact h.lasts

theorem Steady.apply (h : r.Steady length) (hlength : 0 ≤ length)
    (outcome : History × List History.Effect) : (r.apply outcome).1.Steady length := by
  have hfold : ∀ (effects : List History.Effect) (s : Recorder Rat), s.Steady length →
      (effects.foldl perform s).Steady length := by
    intro effects
    induction effects with
    | nil => exact fun s hs => hs
    | cons e effects ih => exact fun s ⟨_, hs⟩ => ih (s.perform e) ⟨_, hs.perform hlength e⟩
  obtain ⟨o, ho⟩ := h
  exact hfold outcome.2 _ ⟨o, ho.of_eq rfl rfl⟩

/-! ## Moves of the clock -/

/-- Ends the pause, beside the clock and along with how often the entries changed. -/
def ring (_ : Pause) (w : Clock Rat Pause × Recorder Rat × Nat) :
    Clock Rat Pause × Recorder Rat × Nat :=
  (w.1, w.2.1.pauseOver.1, w.2.2 + w.2.1.pauseOver.2)

/-- Where a recorder is on the way to a time, after some actions: its window is as it was, or has
    ended once, if it ends by then. -/
inductive Moved (r : Recorder Rat) (o : Option Rat) (target : Rat) :
    Nat → Clock Rat Pause × Recorder Rat × Nat → Prop
  | going {c : Clock Rat Pause} : c.Ordered → r.window.Ends c .over o → Moved r o target 0 (c, r, 0)
  | ended {c : Clock Rat Pause} {time : Rat} : c.Ordered → o = some time → time ≤ target →
      r.window.ended.Ends c .over none → Moved r o target 1 (c, r.pauseOver.1, r.pauseOver.2)

variable {target : Rat} {n m : Nat} {s : Recorder Rat} {t : Timer Rat Pause} {d : Clock Rat Pause}

theorem Moved.ordered {w : Clock Rat Pause × Recorder Rat × Nat} (h : Moved r o target n w) :
    w.1.Ordered := by
  cases h with
  | going hc => exact hc
  | ended hc => exact hc

theorem Moved.pass (h : Moved r o target n (c, s, m)) (hnext : c.next? target = some (t, d))
    (hcancelled : c.isCancelled t.serial = true) : Moved r o target n (d, s, m) := by
  obtain ⟨-, -, -, hd⟩ := h.ordered.next hnext
  cases h with
  | going hc hends => exact .going hd (hends.pass hc hnext (.inr hcancelled))
  | ended hc ho hover hends => exact .ended hd ho hover (hends.pass hc hnext (.inr hcancelled))

/-- The only timer that is not cancelled is that of the window. -/
theorem Moved.turn (h : Moved r o target n (c, s, m)) (hnext : c.next? target = some (t, d))
    (hlive : c.isCancelled t.serial = false) :
    Moved r o target (n + 1) (ring t.action (d, s, m)) := by
  obtain ⟨-, -, hdue, hd⟩ := h.ordered.next hnext
  cases h with
  | going hc hends =>
      obtain ⟨htime, hended⟩ := hends.ring hc hnext rfl hlive
      show Moved r o target 1 (d, r.pauseOver.1, 0 + r.pauseOver.2)
      rw [Nat.zero_add]
      exact .ended hd htime hdue hended
  | ended hc ho hover hends =>
      have hend := (hends.ring hc hnext rfl hlive).1
      exact absurd hend.symm (Option.some_ne_none t.due)

theorem advance_of_drain {seconds : Rat}
    (h : drain ring (r.clock.now + seconds) (r.clock.line.length + 1) (r.clock, r, 0) =
      some (n, d, s, m)) :
    r.advance seconds = (n, { s with clock := { d with now := r.clock.now + seconds } }, m) := by
  have hadvance : Clock.advance? ring (r.clock.line.length + 1) seconds (r.clock, r, 0) =
      some (n, { d with now := r.clock.now + seconds }, s, m) := by
    simp only [Clock.advance?, h]
    rfl
  unfold Recorder.advance
  extract_lets run
  have hrun : run = ring := by
    funext pause w
    rfl
  rw [hrun, hadvance]

/-- A move of the clock that does not reach the end of the window leaves all but the time, and one
    that does ends the pause, once. -/
theorem Ends.advance (h : r.Ends length o) (seconds : Rat) :
    ∃ clock : Clock Rat Pause, clock.now = r.clock.now + seconds ∧
      ((∀ time ∈ o, r.clock.now + seconds < time) ∧
          r.advance seconds = (0, { r with clock }, 0) ∧ Ends length { r with clock } o ∨
        (∃ time ∈ o, time ≤ r.clock.now + seconds) ∧
          r.advance seconds = (1, { r.pauseOver.1 with clock }, r.pauseOver.2) ∧
          Ends length { r.pauseOver.1 with clock } none) := by
  obtain ⟨n, ⟨d, s, m⟩, hdrain, hmoved, hdue⟩ :=
    exists_drain ring (Moved r o (r.clock.now + seconds)) (·.1.line.length) (·.ordered)
      (fun hc hnext hcancelled => ⟨hc.pass hnext hcancelled, hc.ordered.length_next_lt hnext⟩)
      (fun hc hnext hlive => ⟨hc.turn hnext hlive, hc.ordered.length_next_lt hnext⟩)
      (.going h.ordered h.ends) (Nat.lt_succ_self r.clock.line.length)
  have hadvance := advance_of_drain hdrain
  have hordered : Ordered { d with now := r.clock.now + seconds } :=
    hmoved.ordered.moved fun t ht => le_of_lt (hdue t ht)
  refine ⟨{ d with now := r.clock.now + seconds }, rfl, ?_⟩
  rw [Nat.zero_add] at hmoved
  cases hmoved with
  | going _ hends =>
      -- The timer of an open window still stands in line, where none is due any more.
      refine .inl ⟨fun time htime => ?_, hadvance, hordered, h.lasts, hends.of_live_eq rfl⟩
      rw [Option.mem_def.mp htime] at hends
      obtain ⟨t, ht, rfl⟩ := hends.exists_due
      exact hdue t ht
  | ended _ ho hover hends =>
      exact .inr ⟨⟨_, ho, hover⟩, hadvance, hordered, h.lasts, hends.of_live_eq rfl⟩

theorem Steady.advance (h : r.Steady length) (seconds : Rat) :
    (r.advance seconds).2.1.Steady length := by
  obtain ⟨o, ho⟩ := h
  obtain ⟨clock, -, ⟨-, hadvance, hends⟩ | ⟨-, hadvance, hends⟩⟩ := ho.advance seconds
  · rw [hadvance]
    exact ⟨_, hends⟩
  · rw [hadvance]
    exact ⟨_, hends⟩

/-- Whatever happens to a recorder, its window is either closed or open. -/
theorem Steady.take (h : r.Steady length) (hlength : 0 ≤ length) (beat : Beat) :
    (r.take beat).Steady length := by
  have hcurrent : ∀ {r' : Recorder Rat}, r'.Steady length → ∀ current : State,
      Steady length { r' with current } := fun ⟨o, ho⟩ _ => ⟨o, ho.of_eq rfl rfl⟩
  cases beat with
  | set s => exact hcurrent h s
  | record => exact h.apply hlength _
  | edit s => exact hcurrent (h.apply hlength _) s
  | checkpoint => exact h.apply hlength _
  | flush => exact h.apply hlength _
  | cancel => exact h.apply hlength _
  | clear => exact h.apply hlength _
  | undo => exact hcurrent (h.apply hlength _) _
  | redo => exact hcurrent (h.apply hlength _) _
  | advance seconds => exact h.advance seconds

theorem steady_follow (current : State) (limit : Int) (hlength : 0 ≤ length)
    (beats : List Beat) : ((Recorder.start current limit length).follow beats).Steady length := by
  have hfrom : ∀ r : Recorder Rat, r.Steady length → (r.follow beats).Steady length := by
    induction beats with
    | nil => exact fun r hr => hr
    | cons beat beats ih => exact fun r hr => ih (r.take beat) (hr.take hlength beat)
  exact hfrom _ (steady_start current limit length)

/-! ## Bursts -/

/-- Whether captures follow each other, `gap` after the last one, before a window of a length ends;
    in between the current tree may change. -/
def Brisk (length : Rat) : (gap : Rat) → List Beat → Prop
  | _, [] => True
  | _, .record :: beats | _, .edit _ :: beats => Brisk length 0 beats
  | gap, .set _ :: beats => Brisk length gap beats
  | gap, .advance seconds :: beats =>
    gap + seconds < length ∧ Brisk length (gap + seconds) beats
  | _, _ => False

/-- How long the last capture is past after a burst. -/
def gapAfter : (gap : Rat) → List Beat → Rat
  | gap, [] => gap
  | _, .record :: beats | _, .edit _ :: beats => gapAfter 0 beats
  | gap, .advance seconds :: beats => gapAfter (gap + seconds) beats
  | gap, _ :: beats => gapAfter gap beats

/-- Whether a recorder has a history with a capture that waits, and made the last one `gap` ago. -/
structure Waits (length : Rat) (h : History) (gap : Rat) (r : Recorder Rat) : Prop where
  history : r.history = h
  pending : h.pending.isSome
  ends : r.Ends length (some (r.clock.now + (length - gap)))

variable {h : History} {gap : Rat}

/-- A first capture begins to wait. -/
theorem Steady.record (hr : r.Steady length) (hlength : 0 ≤ length) :
    r.record.1.Waits length (r.history.record r.current).1 0 := by
  obtain ⟨o, ho⟩ := hr
  have hrecorded : Ends length { r with history := (r.history.record r.current).1 } o :=
    ho.of_eq rfl rfl
  have hends := hrecorded.perform hlength .restartWindow
  have hnow : r.record.1.clock.now = r.clock.now := by
    show (r.window.stop r.clock).2.now = _
    rw [(r.window.stop_eq r.clock).2]
  refine ⟨rfl, ?_, ?_⟩
  · rw [History.pending_record]
    rfl
  · rw [hnow, sub_zero]
    exact hends

/-- A further capture leaves the history and puts the end off. -/
theorem Waits.record (hr : r.Waits length h gap) (hlength : 0 ≤ length) :
    r.record.1.Waits length h 0 := by
  have hsame : (r.history.record r.current).1 = h := by
    obtain ⟨s, hs⟩ := Option.isSome_iff_exists.mp hr.pending
    rw [hr.history]
    obtain ⟨past, future, pending, limit⟩ := h
    obtain rfl : pending = some s := hs
    rfl
  exact hsame ▸ Steady.record ⟨_, hr.ends⟩ hlength

theorem Waits.set (hr : r.Waits length h gap) (current : State) :
    Waits length h gap { r with current } :=
  ⟨hr.history, hr.pending, hr.ends.of_eq rfl rfl⟩

/-- The capture waits until the window ends. -/
theorem Waits.advance (hr : r.Waits length h gap) {seconds : Rat}
    (hgap : gap + seconds < length) :
    (r.advance seconds).2.1.Waits length h (gap + seconds) := by
  obtain ⟨clock, hnow, ⟨-, hadvance, hends⟩ | ⟨⟨time, htime, hover⟩, -⟩⟩ := hr.ends.advance seconds
  case inr =>
    obtain rfl := Option.some.inj htime
    linarith
  rw [hadvance]
  refine ⟨hr.history, hr.pending, ?_⟩
  -- The end stays where it is; it is the clock that comes nearer.
  have hend : clock.now + (length - (gap + seconds)) = r.clock.now + (length - gap) := by
    rw [hnow]
    linarith
  show Ends length _ (some (clock.now + (length - (gap + seconds))))
  rw [hend]
  exact hends

theorem Waits.follow {beats : List Beat} (hr : r.Waits length h gap) (hlength : 0 ≤ length)
    (hbrisk : Brisk length gap beats) : (r.follow beats).Waits length h (gapAfter gap beats) := by
  induction beats generalizing r gap with
  | nil => exact hr
  | cons beat beats ih =>
      cases beat with
      | set s => exact ih (hr.set s) hbrisk
      | record => exact ih (hr.record hlength) hbrisk
      | edit s => exact ih ((hr.record hlength).set s) hbrisk
      | advance seconds => exact ih (hr.advance hbrisk.1) hbrisk.2
      | _ => exact hbrisk.elim

/-- Then the capture becomes an entry. -/
theorem Waits.advance_over (hr : r.Waits length h gap) {seconds : Rat}
    (hgap : length ≤ gap + seconds) :
    (r.advance seconds).1 = 1 ∧ (r.advance seconds).2.1.history = h.commit.1 ∧
      (r.advance seconds).2.1.window.isOpen = false := by
  obtain ⟨clock, -, ⟨hbefore, -⟩ | ⟨-, hadvance, hends⟩⟩ := hr.ends.advance seconds
  case inl =>
    have hend := hbefore _ rfl
    linarith
  rw [hadvance]
  refine ⟨rfl, ?_, hends.ends.isOpen_eq⟩
  show r.history.commit.1 = _
  rw [hr.history]

/-- Committing after a capture adds the tree that was captured first. -/
theorem commit_record (h : History) (current : State) :
    (h.record current).1.commit = { h with pending := none }.push (h.pending.getD current) := by
  have hpending := History.pending_record h current
  rw [History.commit, hpending]
  rfl

/-- A succession of captures makes one entry when the window ends, of the tree before the first of
    them unless a capture waited before. -/
theorem Steady.burst (hr : r.Steady length) (hlength : 0 ≤ length) {first : Beat}
    (hfirst : first = .record ∨ ∃ s, first = .edit s) {beats : List Beat}
    (hbrisk : Brisk length 0 beats) {seconds : Rat} (hgap : length ≤ gapAfter 0 beats + seconds) :
    ((r.take first).follow beats).history = (r.history.record r.current).1 ∧
      (((r.take first).follow beats).advance seconds).1 = 1 ∧
      (((r.take first).follow beats).advance seconds).2.1.history =
        ({ r.history with pending := none }.push (r.history.pending.getD r.current)).1 ∧
      (((r.take first).follow beats).advance seconds).2.1.window.isOpen = false := by
  have hbegun : (r.take first).Waits length (r.history.record r.current).1 0 := by
    rcases hfirst with rfl | ⟨s, rfl⟩
    · exact hr.record hlength
    · exact (hr.record hlength).set s
  have hwaits := hbegun.follow hlength hbrisk
  obtain ⟨hran, hhistory, hclosed⟩ := hwaits.advance_over hgap
  rw [commit_record] at hhistory
  exact ⟨hwaits.history, hran, hhistory, hclosed⟩

end Recorder

/-! ## Windows and bursts -/

open Timeline (ofWidth)
open Debounced (Room)

/-- The action of a window runs at its end unless another call comes first, whatever the actions on
    the same clock do; and a burst of captures makes one entry. -/
theorem debounces_and_commits_once {length : Rat} (hlength : 0 ≤ length) :
    (∀ (replies : List (List Debounced.Call)) (steps : List Debounced.Step),
      let r := (Room.start length replies).follow steps
      Debounced.Debounces length r ∧
        ∀ seconds,
          (∃ n, Clock.advance? Room.ring (r.load + 1) seconds r =
            some (n, r.advance seconds)) ∧
          (r.advance seconds).1.now = r.1.now + seconds ∧
          ∀ t before, (r.advance seconds).2.journal = .scheduled t :: before →
            r.1.now + seconds < t + length) ∧
    ∀ (current : State) (limit : Int) (before : List Recorder.Beat) (first : Recorder.Beat)
      (beats : List Recorder.Beat) (seconds : Rat),
      let r := (Recorder.start current limit length).follow before
      let r' := (r.take first).follow beats
      (first = .record ∨ ∃ s, first = .edit s) → Recorder.Brisk length 0 beats →
      length ≤ Recorder.gapAfter 0 beats + seconds →
        r'.history = (r.history.record r.current).1 ∧ (r'.advance seconds).1 = 1 ∧
        (r'.advance seconds).2.1.history =
          ({ r.history with pending := none }.push (r.history.pending.getD r.current)).1 ∧
        (r'.advance seconds).2.1.window.isOpen = false := by
  constructor
  · intro replies steps r
    have hsound := Debounced.sound_follow hlength replies steps
    refine ⟨hsound.debounces, fun seconds => ?_⟩
    obtain ⟨hends, -, hnow, -⟩ := hsound.advance hlength seconds
    exact ⟨hends, hnow, fun t before => hsound.lt_end_of_advance hlength seconds⟩
  · intro current limit before first beats seconds r r' hfirst hbrisk hgap
    exact (Recorder.steady_follow current limit hlength before).burst hlength hfirst hbrisk hgap

/-- A window that is opened anew before it ends puts its end off, and two changes that come within
    it are one entry, of the tree before both. -/
theorem debounces_and_commits_once_edits :
    let room := (Room.start (3 / 10) []).follow
      [.call .schedule, .advance (1 / 10), .call .schedule, .advance (3 / 10)]
    let r := (Recorder.start (ofWidth 1) 10 (3 / 10)).follow
      [.edit (ofWidth 2), .advance (1 / 10), .edit (ofWidth 3), .advance (1 / 4)]
    Debounced.Debounces (3 / 10) room ∧
      room.2.journal = [.expired (4 / 10), .scheduled (1 / 10), .scheduled 0] ∧
      r.history.past = [] ∧ (r.advance (1 / 10)).1 = 1 ∧
      (r.advance (1 / 10)).2.1.history.past = [ofWidth 1] := by
  intro room r
  have hlength : (0 : Rat) ≤ 3 / 10 := by norm_num
  obtain ⟨hroom, hburst⟩ := debounces_and_commits_once hlength
  have hbrisk : Recorder.Brisk (3 / 10) 0
      [.advance (1 / 10), .edit (ofWidth 3), .advance (1 / 4)] :=
    ⟨by norm_num, by norm_num, trivial⟩
  have hgap : (3 / 10 : Rat) ≤ Recorder.gapAfter 0
      [.advance (1 / 10), .edit (ofWidth 3), .advance (1 / 4)] + 1 / 10 := by
    show (3 / 10 : Rat) ≤ 0 + 1 / 4 + 1 / 10
    norm_num
  obtain ⟨hbegun, hran, hhistory, -⟩ := hburst (ofWidth 1) 10 [] (.edit (ofWidth 2))
    [.advance (1 / 10), .edit (ofWidth 3), .advance (1 / 4)] (1 / 10) (.inr ⟨_, rfl⟩) hbrisk hgap
  have hjournal : room.2.journal = [.expired (4 / 10), .scheduled (1 / 10), .scheduled 0] := by
    simp only [room]
    cbv
  refine ⟨(hroom [] _).1, hjournal, congrArg History.past hbegun, hran, ?_⟩
  exact congrArg History.past hhistory

/-- At the end of a window, an action whose turn is before that of the window may still stop it; a
    capture that `cancel` left from before becomes the entry of the next succession of changes; and
    where the newest entry asks for the same, nothing is added. -/
theorem debounce_tie_leftover_duplicate :
    ((Room.start (1 / 2) [[.cancel]]).follow
      [.call (.later (1 / 2)), .call .schedule, .advance (1 / 2)]).2.journal =
        [.cancelled (1 / 2), .scheduled 0] ∧
    ((Recorder.start (ofWidth 1) 10 (1 / 2)).follow
      [.record, .cancel, .advance 1, .set (ofWidth 2), .record, .advance (1 / 2)]).history.past =
        [ofWidth 1] ∧
    ((Recorder.start (ofWidth 1) 10 (1 / 2)).follow
      [.record, .advance (1 / 2), .record, .advance (1 / 2)]).history.past = [ofWidth 1] := by
  refine ⟨by cbv, by cbv, by cbv⟩

end Retouch
