/-
  When the action of a window runs.

  A desk works a window on a clock that it shares with other timers.  It notes in a journal when the
  window was started anew, stopped or flushed, and when it ended; whatever an action makes of its
  turn, it makes further calls, which are given beforehand.  So a room may be followed through any
  calls and any moves of the clock, with any behavior of the actions.

  The journal alone says whether the window is open and when it ends (`endAfter`), and every entry
  fits what is before it (`Told`).  Each call and each turn of a timer keeps that (`Sound`), so that
  all of a journal is known (`Room.sound_follow`).
-/
import Retouch.Proofs.Clock.Live

namespace Retouch.Debounced

/-! ## The desk -/

/-- What may be asked of a clock with a window, except that it moves. -/
inductive Call where
  /-- Starts the window anew. -/
  | schedule
  /-- Stops the window. -/
  | cancel
  /-- Runs the action of the window at once, if the window is open; the calls that the action makes
  come next. -/
  | flush
  /-- Sets another timer. -/
  | later (delay : Rat)
  /-- Cancels one of the other timers. -/
  | drop (index : Nat)

/-- What a timer is for. -/
inductive Alarm where
  | windowEnd
  | other
  deriving DecidableEq

/-- What happened to the window, and when. -/
inductive Entry where
  | scheduled (time : Rat)
  | cancelled (time : Rat)
  /-- The window was flushed, and its action ran or there was nothing to run. -/
  | flushed (time : Rat) (ran : Bool)
  /-- The window ended, and its action ran. -/
  | expired (time : Rat)

/-- A window with its journal. -/
structure Desk where
  window : Window Rat
  /-- What happened to the window, the last first. -/
  journal : List Entry := []
  /-- The other timers that were set. -/
  others : List Nat := []
  /-- The calls that the next actions make. -/
  replies : List (List Call)

/-- A clock and a desk. -/
abbrev Room := Clock Rat Alarm × Desk

/-- Carries out a call. -/
def Call.carryOut (call : Call) (r : Room) : Room :=
  let (clock, desk) := r
  match call with
  | .schedule =>
    let (window, moved) := desk.window.restart clock .windowEnd
    (moved, { desk with window, journal := .scheduled clock.now :: desk.journal })
  | .cancel =>
    let (window, moved) := desk.window.stop clock
    (moved, { desk with window, journal := .cancelled clock.now :: desk.journal })
  | .flush =>
    let (window, moved) := desk.window.stop clock
    (moved,
      { desk with window, journal := .flushed clock.now desk.window.isOpen :: desk.journal })
  | .later delay =>
    (clock.later delay .other, { desk with others := desk.others ++ [clock.count] })
  | .drop index =>
    match desk.others[index]? with
    | some serial => (clock.cancel serial, desk)
    | none => r

namespace Room

/-- Carries out the calls of an action. -/
def reply (r : Room) : Room :=
  match r.2.replies with
  | [] => r
  | calls :: replies => calls.foldl (fun r call => call.carryOut r) (r.1, { r.2 with replies })

/-- Runs what a timer is for. -/
def ring (alarm : Alarm) (r : Room) : Room :=
  match alarm with
  | .windowEnd =>
    let desk := r.2
    reply (r.1,
      { desk with window := desk.window.ended, journal := .expired r.1.now :: desk.journal })
  | .other => reply r

/-- How many timers can come up at most. -/
def load (r : Room) : Nat := r.1.line.length + r.2.replies.flatten.length

/-- Moves the clock. -/
def advance (r : Room) (seconds : Rat) : Room :=
  match Clock.advance? ring (r.load + 1) seconds r with
  | some (_, r) => r
  | none => r

end Room

/-- A call, or a move of the clock. -/
inductive Step where
  | call (call : Call)
  | advance (seconds : Rat)

namespace Room

/-- A room before the first step. -/
def start (length : Rat) (replies : List (List Call)) : Room :=
  (.start, { window := { length }, replies })

/-- Takes a step. -/
def take (r : Room) : Step → Room
  | .call call => call.carryOut r
  | .advance seconds => r.advance seconds

/-- Takes steps one after the other. -/
def follow (r : Room) (steps : List Step) : Room := steps.foldl take r

end Room

/-! ## What a journal tells -/

/-- When an open window ends, from its last entry. -/
def endAfter (length : Rat) : List Entry → Option Rat
  | .scheduled time :: _ => some (time + length)
  | _ => none

/-- Whether an entry is of a call, made at a time or before. -/
def Entry.CalledBy (time : Rat) : Entry → Prop
  | .scheduled u => u ≤ time
  | .cancelled u => u ≤ time
  | .flushed u _ => u ≤ time
  | .expired _ => False

/-- Whether an entry fits the ones before it: a window runs its action when it ends, a flush runs it
    if the window is open, and calls are made until then. -/
def Entry.Fits (length : Rat) (before : List Entry) : Entry → Prop
  | .expired u => endAfter length before = some u
  | .flushed u ran =>
    ran = (endAfter length before).isSome ∧ ∀ time ∈ endAfter length before, u ≤ time
  | .scheduled u => ∀ time ∈ endAfter length before, u ≤ time
  | .cancelled u => ∀ time ∈ endAfter length before, u ≤ time

/-- Whether every entry of a journal fits the ones before it. -/
def Told (length : Rat) : List Entry → Prop
  | [] => True
  | e :: before => e.Fits length before ∧ Told length before

variable {length : Rat} {r : Room}

theorem Told.fits {since before : List Entry} {e : Entry}
    (h : Told length (since ++ e :: before)) : e.Fits length before := by
  induction since with
  | nil => exact h.1
  | cons x since ih => exact ih h.2

theorem endAfter_eq_some_iff {journal : List Entry} {time : Rat} :
    endAfter length journal = some time ↔
      ∃ t before, journal = .scheduled t :: before ∧ time = t + length := by
  constructor
  · intro h
    unfold endAfter at h
    split at h
    · rename_i t before
      exact ⟨t, before, rfl, (Option.some.inj h).symm⟩
    · cases h
  · rintro ⟨t, before, rfl, rfl⟩
    rfl

/-! ## Calls -/

/-- Whether a room is as its journal tells, and every timer is either of the window or among the
    others. -/
structure Sound (length : Rat) (r : Room) : Prop where
  ordered : r.1.Ordered
  lasts : r.2.window.length = length
  ends : r.2.window.Ends r.1 .windowEnd (endAfter length r.2.journal)
  told : Told length r.2.journal
  issued : ∀ n ∈ r.2.others, n < r.1.count
  apart : ∀ t ∈ r.1.line, t.action = .windowEnd → t.serial ∉ r.2.others

theorem sound_start (length : Rat) (replies : List (List Call)) :
    Sound length (Room.start length replies) where
  ordered := Clock.ordered_start
  lasts := rfl
  ends := ⟨rfl, rfl⟩
  told := trivial
  issued := nofun
  apart := nofun

/-- A call is made before an open window ends. -/
theorem Sound.now_le (h : Sound length r) : ∀ time ∈ endAfter length r.2.journal,
    r.1.now ≤ time := by
  intro time htime
  have hends := h.ends
  rw [Option.mem_def.mp htime] at hends
  exact hends.now_le h.ordered

theorem Sound.schedule (h : Sound length r) (hlength : 0 ≤ length) :
    Sound length (Call.schedule.carryOut r) := by
  obtain ⟨c, desk⟩ := r
  obtain ⟨hends, hordered⟩ := h.ends.restart h.ordered (h.lasts.symm ▸ hlength)
  obtain ⟨hw, hd⟩ := desk.window.stop_eq c
  refine ⟨hordered, ?_, ?_, ⟨h.now_le, h.told⟩, fun n hn => ?_, fun t ht haction => ?_⟩
  · show (desk.window.stop c).1.length = length
    rw [hw]
    exact h.lasts
  · exact h.lasts ▸ hends
  · -- The stop sets no timer, so the new one has the number that comes next.
    show n < (desk.window.stop c).2.count + 1
    rw [hd]
    exact Nat.lt_succ_of_lt (h.issued n hn)
  · rcases Clock.mem_insert.mp ht with rfl | ht
    · show (desk.window.stop c).2.count ∉ desk.others
      rw [hd]
      exact fun hmem => Nat.lt_irrefl _ (h.issued _ hmem)
    · have ht : t ∈ (desk.window.stop c).2.line := ht
      rw [hd] at ht
      exact h.apart t ht haction

/-- A stop closes the window, whatever is noted of it. -/
theorem Sound.stopped (h : Sound length r) {e : Entry} (hfits : e.Fits length r.2.journal)
    (he : ∀ time, e ≠ .scheduled time) :
    Sound length
      ((r.2.window.stop r.1).2,
        { r.2 with window := (r.2.window.stop r.1).1, journal := e :: r.2.journal }) := by
  obtain ⟨c, desk⟩ := r
  obtain ⟨hends, hordered⟩ := h.ends.stop h.ordered
  obtain ⟨hw, hd⟩ := desk.window.stop_eq c
  have hnone : endAfter length (e :: desk.journal) = none := by
    cases e with
    | scheduled time => exact absurd rfl (he time)
    | _ => rfl
  refine ⟨hordered, ?_, ?_, ⟨hfits, h.told⟩, fun n hn => ?_, fun t ht haction => ?_⟩
  · rw [hw]
    exact h.lasts
  · rw [hnone]
    exact hends
  · rw [hd]
    exact h.issued n hn
  · rw [hd] at ht
    exact h.apart t ht haction

theorem Sound.later (h : Sound length r) (delay : Rat) :
    Sound length ((Call.later delay).carryOut r) := by
  obtain ⟨c, desk⟩ := r
  refine ⟨h.ordered.later delay .other, h.lasts, h.ends.later h.ordered delay nofun, h.told,
    fun n hn => ?_, fun t ht haction => ?_⟩
  · rcases List.mem_append.mp hn with hn | hn
    · exact Nat.lt_succ_of_lt (h.issued n hn)
    · rw [List.mem_singleton.mp hn]
      exact Nat.lt_succ_self c.count
  · rcases Clock.mem_insert.mp ht with rfl | ht
    · cases haction
    · intro hmem
      rcases List.mem_append.mp hmem with hmem | hmem
      · exact h.apart t ht haction hmem
      · have hcount := h.ordered.issued t ht
        rw [List.mem_singleton.mp hmem] at hcount
        exact Nat.lt_irrefl _ hcount

theorem Sound.drop (h : Sound length r) (index : Nat) :
    Sound length ((Call.drop index).carryOut r) := by
  obtain ⟨c, desk⟩ := r
  simp only [Call.carryOut]
  split
  · rename_i serial hserial
    have hmem : serial ∈ desk.others := List.mem_of_getElem? hserial
    have hother : ∀ t ∈ c.line, t.action = .windowEnd → t.serial ≠ serial := fun t ht ha heq =>
      h.apart t ht ha (heq ▸ hmem)
    exact ⟨h.ordered.cancel (h.issued serial hmem), h.lasts, h.ends.cancel hother, h.told,
      h.issued, h.apart⟩
  · exact h

/-- Every call keeps a room sound. -/
theorem Sound.carryOut (h : Sound length r) (hlength : 0 ≤ length) (call : Call) :
    Sound length (call.carryOut r) := by
  cases call with
  | schedule => exact h.schedule hlength
  | cancel => exact h.stopped (e := .cancelled r.1.now) h.now_le nofun
  | flush =>
      exact h.stopped (e := .flushed r.1.now r.2.window.isOpen) ⟨h.ends.isOpen_eq, h.now_le⟩ nofun
  | later delay => exact h.later delay
  | drop index => exact h.drop index

/-! ## Moves of the clock -/

theorem Sound.reply (h : Sound length r) (hlength : 0 ≤ length) : Sound length r.reply := by
  have hcalls : ∀ (calls : List Call) (s : Room), Sound length s →
      Sound length (calls.foldl (fun r call => call.carryOut r) s) := by
    intro calls
    induction calls with
    | nil => exact fun s hs => hs
    | cons call calls ih => exact fun s hs => ih (call.carryOut s) (hs.carryOut hlength call)
  unfold Room.reply
  split
  · exact h
  · exact hcalls _ _ ⟨h.ordered, h.lasts, h.ends, h.told, h.issued, h.apart⟩

variable {t : Timer Rat Alarm} {d : Clock Rat Alarm} {target : Rat}

/-- The next timer leaves a room sound, whatever it makes of the window. -/
theorem Sound.next (h : Sound length r) (hnext : r.1.next? target = some (t, d))
    {window : Window Rat} {journal : List Entry} (hlasts : window.length = length)
    (hends : window.Ends d .windowEnd (endAfter length journal)) (htold : Told length journal) :
    Sound length (d, { r.2 with window, journal }) := by
  obtain ⟨hline, hd, -, hordered⟩ := h.ordered.next hnext
  have hcount : d.count = r.1.count := by rw [hd]
  exact ⟨hordered, hlasts, hends, htold, fun n hn => hcount ▸ h.issued n hn,
    fun u hu => h.apart u (hline ▸ List.mem_cons_of_mem t hu)⟩

/-- A timer that is not of the window, or was cancelled, leaves the window as it is. -/
theorem Sound.pass (h : Sound length r) (hnext : r.1.next? target = some (t, d))
    (hother : t.action ≠ .windowEnd ∨ r.1.isCancelled t.serial = true) :
    Sound length (d, r.2) :=
  h.next hnext h.lasts (h.ends.pass h.ordered hnext hother) h.told

/-- The turn of a timer keeps a room sound; that of the window comes when the window ends. -/
theorem Sound.turn (h : Sound length r) (hlength : 0 ≤ length)
    (hnext : r.1.next? target = some (t, d)) (hlive : r.1.isCancelled t.serial = false) :
    Sound length (Room.ring t.action (d, r.2)) := by
  cases haction : t.action with
  | other => exact (h.pass hnext (.inl (by rw [haction]; nofun))).reply hlength
  | windowEnd =>
      -- The entry is noted at the time that the clock has moved to, which is when the timer is due.
      obtain ⟨hend, hends⟩ := h.ends.ring h.ordered hnext haction hlive
      have hnow : d.now = t.due := by rw [(h.ordered.next hnext).2.1]
      have hfits : Entry.Fits length r.2.journal (.expired d.now) :=
        hend.trans (congrArg some hnow.symm)
      have hended : Sound length (d, { r.2 with
          window := r.2.window.ended, journal := .expired d.now :: r.2.journal }) :=
        h.next hnext h.lasts hends ⟨hfits, h.told⟩
      exact hended.reply hlength

/-! ## Every timer has its turn -/

theorem load_carryOut (call : Call) (r : Room) : (call.carryOut r).load ≤ r.load + 1 := by
  obtain ⟨c, desk⟩ := r
  have hstop : (desk.window.stop c).2.line = c.line := by rw [(desk.window.stop_eq c).2]
  have hstopped : (desk.window.stop c).2.line.length + desk.replies.flatten.length ≤
      Room.load (c, desk) + 1 := by
    rw [hstop]
    exact Nat.le_succ _
  have hlater : ∀ (d : Clock Rat Alarm) delay action, d.line = c.line →
      (d.later delay action).line.length + desk.replies.flatten.length ≤
        Room.load (c, desk) + 1 := by
    intro d delay action hline
    rw [Clock.length_line_later, hline, Nat.add_right_comm]
    exact Nat.le_refl _
  cases call with
  | schedule => exact hlater (desk.window.stop c).2 _ .windowEnd hstop
  | cancel => exact hstopped
  | flush => exact hstopped
  | later delay => exact hlater c delay .other rfl
  | drop index =>
      simp only [Call.carryOut]
      split
      · exact Nat.le_succ _
      · exact Nat.le_succ _

/-- An action sets no more timers than it makes calls. -/
theorem load_reply (r : Room) : r.reply.load ≤ r.load := by
  have hcalls : ∀ (calls : List Call) (s : Room),
      (calls.foldl (fun r call => call.carryOut r) s).load ≤ s.load + calls.length := by
    intro calls
    induction calls with
    | nil => exact fun s => Nat.le_refl _
    | cons call calls ih =>
        intro s
        have hfirst := load_carryOut call s
        have hrest := ih (call.carryOut s)
        rw [List.foldl_cons, List.length_cons]
        omega
  unfold Room.reply
  split
  · exact Nat.le_refl _
  · rename_i calls replies hreplies
    refine Nat.le_trans (hcalls calls _) ?_
    unfold Room.load
    rw [hreplies, List.flatten_cons, List.length_append]
    show r.1.line.length + replies.flatten.length + calls.length ≤ _
    omega

theorem load_ring (alarm : Alarm) (r : Room) : (r.ring alarm).load ≤ r.load := by
  cases alarm with
  | windowEnd => exact load_reply _
  | other => exact load_reply r

/-- The turns end, at a room in which nothing more is due. -/
theorem Sound.exists_drain (hlength : 0 ≤ length) (target : Rat) {fuel : Nat}
    (h : Sound length r) (hfuel : r.load < fuel) :
    ∃ n s, Clock.drain Room.ring target fuel r = some (n, s) ∧ Sound length s ∧
      ∀ t ∈ s.1.line, target < t.due := by
  have hless : ∀ {c d : Clock Rat Alarm} {desk : Desk} {t : Timer Rat Alarm},
      Sound length (c, desk) → c.next? target = some (t, d) →
        Room.load (d, desk) < Room.load (c, desk) :=
    fun hc hnext => Nat.add_lt_add_right (hc.ordered.length_next_lt hnext) _
  exact Clock.exists_drain Room.ring (fun _ => Sound length) Room.load (n := 0) (·.ordered)
    (fun hc hnext hcancelled => ⟨hc.pass hnext (.inr hcancelled), hless hc hnext⟩)
    (fun hc hnext hlive =>
      ⟨hc.turn hlength hnext hlive, Nat.lt_of_le_of_lt (load_ring _ _) (hless hc hnext)⟩) h hfuel

/-- A move of the clock comes to its end, and keeps a room sound. -/
theorem Sound.advance (h : Sound length r) (hlength : 0 ≤ length) (seconds : Rat) :
    (∃ n, Clock.advance? Room.ring (r.load + 1) seconds r = some (n, r.advance seconds)) ∧
      Sound length (r.advance seconds) ∧ (r.advance seconds).1.now = r.1.now + seconds ∧
      ∀ t ∈ (r.advance seconds).1.line, r.1.now + seconds < t.due := by
  obtain ⟨n, s, hdrain, hs, hdue⟩ :=
    h.exists_drain hlength (r.1.now + seconds) (Nat.lt_succ_self r.load)
  have hadvance : Clock.advance? Room.ring (r.load + 1) seconds r =
      some (n, { s.1 with now := r.1.now + seconds }, s.2) := by
    simp only [Clock.advance?, hdrain]
    rfl
  have hroom : r.advance seconds = ({ s.1 with now := r.1.now + seconds }, s.2) := by
    rw [Room.advance, hadvance]
  rw [hroom]
  refine ⟨⟨n, hadvance⟩, ?_, rfl, hdue⟩
  exact ⟨hs.ordered.moved fun t ht => le_of_lt (hdue t ht), hs.lasts, hs.ends.of_live_eq rfl,
    hs.told, hs.issued, hs.apart⟩

theorem sound_follow (hlength : 0 ≤ length) (replies : List (List Call)) (steps : List Step) :
    Sound length ((Room.start length replies).follow steps) := by
  have hfrom : ∀ r, Sound length r → Sound length (r.follow steps) := by
    induction steps with
    | nil => exact fun r hr => hr
    | cons step steps ih =>
        intro r hr
        refine ih (r.take step) ?_
        cases step with
        | call call => exact hr.carryOut hlength call
        | advance seconds => exact (hr.advance hlength seconds).2.1
  exact hfrom _ (sound_start length replies)

/-! ## What is known of all journals -/

/-- Whether the action of a window runs as it should.  After a start it runs at the end of the
    window, unless another call comes by then; it runs at a flush of an open window; and it runs at
    no other time. -/
structure Debounces (length : Rat) (r : Room) : Prop where
  live : (r.1.live .windowEnd).length = if r.2.window.isOpen then 1 else 0
  isOpen : r.2.window.isOpen = true ↔ ∃ t before, r.2.journal = .scheduled t :: before
  scheduled : ∀ since t before, r.2.journal = since ++ .scheduled t :: before →
    since = [] ∧ r.1.now ≤ t + length ∨
      ∃ later e, since = later ++ [e] ∧ (e = .expired (t + length) ∨ e.CalledBy (t + length))
  expired : ∀ since u before, r.2.journal = since ++ .expired u :: before →
    ∃ t rest, before = .scheduled t :: rest ∧ u = t + length
  flushed : ∀ since u ran before, r.2.journal = since ++ .flushed u ran :: before →
    (ran = true ↔ ∃ t rest, before = .scheduled t :: rest)

theorem isSome_endAfter_iff {journal : List Entry} :
    (endAfter length journal).isSome = true ↔ ∃ t before, journal = .scheduled t :: before := by
  constructor
  · intro h
    obtain ⟨time, htime⟩ := Option.isSome_iff_exists.mp h
    obtain ⟨t, before, hjournal, -⟩ := endAfter_eq_some_iff.mp htime
    exact ⟨t, before, hjournal⟩
  · rintro ⟨t, before, rfl⟩
    rfl

/-- What fits after a start is the end of the window, or a call until then. -/
theorem Entry.Fits.after_scheduled {e : Entry} {t : Rat} {before : List Entry}
    (h : e.Fits length (.scheduled t :: before)) :
    e = .expired (t + length) ∨ e.CalledBy (t + length) := by
  cases e with
  | scheduled u => exact .inr (h _ rfl)
  | cancelled u => exact .inr (h _ rfl)
  | flushed u ran => exact .inr (h.2 _ rfl)
  | expired u => exact .inl (congrArg Entry.expired (Option.some.inj h).symm)

theorem Sound.debounces (h : Sound length r) : Debounces length r where
  live := h.ends.length_live
  isOpen := by rw [h.ends.isOpen_eq, isSome_endAfter_iff]
  scheduled since t before hjournal := by
    rcases List.eq_nil_or_concat since with rfl | ⟨later, e, rfl⟩
    · exact .inl ⟨rfl, h.now_le _ (hjournal ▸ rfl)⟩
    · refine .inr ⟨later, e, by simp, ?_⟩
      have htold := h.told
      rw [hjournal, List.concat_append] at htold
      exact htold.fits.after_scheduled
  expired since u before hjournal := endAfter_eq_some_iff.mp (hjournal ▸ h.told).fits
  flushed since u ran before hjournal := by
    have hfits : Entry.Fits length before (.flushed u ran) := (hjournal ▸ h.told).fits
    rw [hfits.1, isSome_endAfter_iff]

/-- No open window is left behind by the clock. -/
theorem Sound.lt_end_of_advance (h : Sound length r) (hlength : 0 ≤ length) (seconds : Rat)
    {t : Rat} {before : List Entry}
    (hjournal : (r.advance seconds).2.journal = .scheduled t :: before) :
    r.1.now + seconds < t + length := by
  obtain ⟨-, hsound, -, hdue⟩ := h.advance hlength seconds
  have hends := hsound.ends
  rw [hjournal] at hends
  obtain ⟨u, hu, hend⟩ := hends.exists_due
  exact hend ▸ hdue u hu

end Retouch.Debounced
