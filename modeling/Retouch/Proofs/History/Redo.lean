/-
  What there is to redo.

  Only a new entry drops what was undone, and a tree that the newest entry asks for already does
  not become one.  So what was undone outlives a change exactly if the tree before the change is
  the newest entry (`future_commit_eq_nil_iff`).

  As long as every other tree is recorded, that cannot happen: neighbours on the timeline ask for
  different things (`Threaded`), and while there is something to redo the newest entry is such a
  neighbour of the tree before the changes in progress.
-/
import Mathlib.Data.List.Chain
import Retouch.Proofs.History.Contents

namespace Retouch

namespace History

variable {h : History} {s : State}

/-! ## Adding an entry -/

/-- Whether the newest entry asks for the same as a tree. -/
def repeats (h : History) (s : State) : Bool := h.past.head?.any (·.same s)

theorem repeats_of_past_cons {top : State} {past : List State} (hpast : h.past = top :: past) :
    h.repeats s = top.same s := by
  simp [repeats, hpast]

theorem push_of_repeats (hplain : s.Plain) (hsame : h.repeats s = true) : (h.push s).1 = h := by
  unfold repeats at hsame
  simp [push, hplain.withoutVisualCrop_eq, hsame]

theorem push_of_not_repeats (hplain : s.Plain) (hnew : h.repeats s = false) :
    (h.push s).1 = { h with past := (s :: h.past).take h.limit, future := [] } := by
  unfold repeats at hnew
  simp [push, hplain.withoutVisualCrop_eq, hnew]

/-- What was undone is dropped, unless the newest entry asks for the same. -/
theorem future_push_eq_nil_iff (hplain : s.Plain) :
    (h.push s).1.future = [] ↔ h.future = [] ∨ h.repeats s = false := by
  cases hsame : h.repeats s with
  | true => simp [push_of_repeats hplain hsame]
  | false => simp [push_of_not_repeats hplain hsame]

/-- Both sides are as they were exactly if the newest entry asks for the same, or there is no room
    for entries. -/
theorem push_unchanged_iff (hs : h.Sound) (hplain : s.Plain) :
    (h.push s).1.past = h.past ∧ (h.push s).1.future = h.future ↔
      h.repeats s = true ∨ h.limit = 0 := by
  have hfits := hs.fits
  cases hsame : h.repeats s with
  | true => simp [push_of_repeats hplain hsame]
  | false =>
      rw [push_of_not_repeats hplain hsame]
      simp only [Bool.false_eq_true, false_or]
      cases hlimit : h.limit with
      | zero =>
          rw [hlimit] at hfits
          have hpast : h.past = [] := List.eq_nil_of_length_eq_zero (by omega)
          have hfuture : h.future = [] := List.eq_nil_of_length_eq_zero (by omega)
          simp [hpast, hfuture]
      | succ n =>
          -- A tree that became the newest entry was not the newest entry before.
          simp only [List.take_succ_cons, Nat.succ_ne_zero, iff_false, not_and]
          intro hpast
          rw [repeats_of_past_cons hpast.symm, State.same_refl] at hsame
          cases hsame

/-- Where there is room, the newest entry asks for the same as a tree that was added. -/
theorem repeats_push (hplain : s.Plain) (hlimit : h.limit ≠ 0) :
    (h.push s).1.repeats s = true := by
  cases hsame : h.repeats s with
  | true => rwa [push_of_repeats hplain hsame]
  | false =>
      obtain ⟨n, hn⟩ := Nat.exists_eq_succ_of_ne_zero hlimit
      rw [push_of_not_repeats hplain hsame, hn]
      exact State.same_refl s

theorem commit_of_pending_some (hp : h.pending = some s) :
    h.commit = push { h with pending := none } s := by
  simp only [commit, hp]

/-- With no changes in progress, a change adds the tree before it once the pause is over, and so
    does an operation that is recorded at once. -/
theorem commit_record (hp : h.pending = none) : (h.record s).1.commit.1 = (h.push s).1 := by
  rw [commit_of_pending_some (by rw [pending_record, hp, Option.getD_none])]
  obtain ⟨past, future, pending, limit⟩ := h
  obtain rfl : pending = none := hp
  rfl

theorem commit_checkpoint (hp : h.pending = none) :
    (h.checkpoint s).1.commit.1 = (h.push s).1 := by
  have hpush : (h.checkpoint s).1 = (h.push s).1 := by
    show (h.flush.1.push s).1 = _
    rw [flush_fst_of_pending_none hp]
  rw [hpush, commit_of_pending_none ((push_pending h s).trans hp)]

/-- When the pause is over, nothing is left to redo, unless there was something and the newest entry
    asks for the same as the capture. -/
theorem future_commit_eq_nil_iff (hp : h.pending = some s) (hplain : s.Plain) :
    h.commit.1.future = [] ↔ h.future = [] ∨ h.repeats s = false := by
  rw [commit_of_pending_some hp]
  exact future_push_eq_nil_iff hplain

/-- Where something is left to redo, both sides are as they were. -/
theorem commit_of_future_ne_nil (hp : h.pending = some s) (hplain : s.Plain)
    (hfuture : h.commit.1.future ≠ []) :
    h.commit.1.past = h.past ∧ h.commit.1.future = h.future := by
  have hsame : h.repeats s = true := by
    rw [Ne, future_commit_eq_nil_iff hp hplain, not_or] at hfuture
    simpa using hfuture.2
  have hkept := push_of_repeats (h := { h with pending := none }) hplain hsame
  rw [commit_of_pending_some hp, hkept]
  exact ⟨rfl, rfl⟩

/-! ## Steps -/

@[simp] theorem checkpoint_pending (h : History) (current : State) :
    (h.checkpoint current).1.pending = none :=
  (push_pending h.flush.1 current).trans (commit_pending h)

@[simp] theorem undo_pending (h : History) (current : State) :
    (h.undo current).2.1.pending = none := by
  cases hpast : h.flush.1.past with
  | nil =>
      rw [(undo_of_past_nil current hpast).2]
      exact commit_pending h
  | cons s past =>
      rw [(undo_of_past_cons current hpast).2]
      exact commit_pending h

@[simp] theorem redo_pending (h : History) (current : State) :
    (h.redo current).2.1.pending = none := by
  cases hfuture : h.flush.1.future with
  | nil =>
      rw [(redo_of_future_nil current hfuture).2]
      exact commit_pending h
  | cons s future =>
      rw [(redo_of_future_cons current hfuture).2]
      exact commit_pending h

end History

namespace Timeline

variable {t : Timeline} {st : Step}

/-- A step after which a capture still waits leaves the entries and the capture. -/
theorem step_waits {s : State} (hp : t.history.pending = some s)
    (hwaits : (t.step st).history.pending.isSome) :
    (t.step st).history.past = t.history.past ∧ (t.step st).history.future = t.history.future ∧
      (t.step st).history.pending = some s := by
  cases st with
  | replace next => exact ⟨rfl, rfl, hp⟩
  | record => exact ⟨rfl, rfl, by simp [step, History.pending_record, hp]⟩
  | cancel => exact ⟨rfl, rfl, hp⟩
  | pauseOver => simp [step] at hwaits
  | flush => simp [step, History.flush_fst] at hwaits
  | checkpoint => simp [step] at hwaits
  | clear => cases hwaits
  | undo => simp [step, travel] at hwaits
  | redo => simp [step, travel] at hwaits

/-- The tree that a step leads to is one that was there. -/
theorem current_step {T : State → Prop} (hT : ∀ s, T s → s.Plain) (hh : t.history.Consists T)
    (hs : T t.current) (hst : ∀ s, st ≠ .replace s) : T (t.step st).current := by
  have htravel : ∀ outcome : Option State × History × List History.Effect,
      (∀ s ∈ outcome.1, T s) → T (t.travel outcome).current := by
    rintro ⟨_ | s, rest⟩ hfound
    · exact hs
    · exact hfound s rfl
  cases st with
  | replace s => exact absurd rfl (hst s)
  | undo => exact htravel _ (hh.undo hT hs).1
  | redo => exact htravel _ (hh.redo hT hs).1
  | _ => exact hs

end Timeline

/-! ## Neighbours on the timeline -/

namespace Timeline

open History

/-- Whether neighbours on a timeline ask for different things.  The newest entry is the neighbour of
    the tree before the changes in progress; that matters only while there is something to redo.
    The last two trees to redo may be the same, since changes in progress may have changed nothing
    in the end. -/
structure Threaded (t : Timeline) : Prop where
  past : t.history.past.IsChain fun newer older => older.same newer = false
  newest : t.history.future ≠ [] →
    t.history.repeats (t.history.pending.getD t.current) = false
  ahead : t.history.pending = none →
    (t.current :: t.history.future).dropLast.IsChain fun s next => s.same next = false

/-- Whether the trees of a timeline are stored as they are, within the limit. -/
structure Regular (t : Timeline) : Prop where
  sound : t.history.Sound
  current : t.current.Plain
  pending : ∀ s ∈ t.history.pending, s.Plain

variable {t : Timeline} {h : History} {s : State}

/-- The tree with which the changes in progress began is stored as it is. -/
theorem Regular.begun {t : Timeline} (hr : Regular t) :
    (t.history.pending.getD t.current).Plain := by
  cases hp : t.history.pending with
  | none => exact hr.current
  | some s => exact hr.pending s hp

theorem threaded_start (current : State) (limit : Nat) : Threaded (start current limit) :=
  ⟨.nil, fun hne => absurd rfl hne, fun _ => .nil⟩

/-- With nothing to redo, only the entries matter. -/
theorem Threaded.of_future_nil (hfuture : h.future = [])
    (hpast : h.past.IsChain fun newer older => older.same newer = false) (s : State) :
    Threaded ⟨s, h⟩ := by
  refine ⟨hpast, fun hne => absurd hfuture hne, fun _ => ?_⟩
  show (s :: h.future).dropLast.IsChain _
  rw [hfuture]
  exact .nil

theorem isChain_push (hpast : h.past.IsChain fun newer older => older.same newer = false)
    (hplain : s.Plain) :
    (h.push s).1.past.IsChain fun newer older => older.same newer = false := by
  cases hsame : h.repeats s with
  | true =>
      rw [push_of_repeats hplain hsame]
      exact hpast
  | false =>
      rw [push_of_not_repeats hplain hsame]
      refine List.IsChain.take ?_ h.limit
      cases hcons : h.past with
      | nil => exact .singleton s
      | cons top past =>
          rw [repeats_of_past_cons hcons] at hsame
          rw [hcons] at hpast
          exact List.isChain_cons_cons.mpr ⟨hsame, hpast⟩

/-- A tree that differs from the newest entry, or comes when nothing can be redone, may be followed
    by any tree once it is an entry. -/
theorem threaded_push (hpast : h.past.IsChain fun newer older => older.same newer = false)
    (hnewest : h.future ≠ [] → h.repeats s = false) (hplain : s.Plain) (next : State) :
    Threaded ⟨next, (h.push s).1⟩ := by
  refine Threaded.of_future_nil ((future_push_eq_nil_iff hplain).mpr ?_)
    (isChain_push hpast hplain) next
  by_cases hfuture : h.future = []
  · exact Or.inl hfuture
  · exact Or.inr (hnewest hfuture)

/-- The capture is such a tree. -/
theorem Threaded.commit (ht : Threaded t) (hr : Regular t) :
    Threaded ⟨t.current, t.history.commit.1⟩ := by
  cases hp : t.history.pending with
  | none =>
      rw [commit_of_pending_none hp]
      exact ht
  | some s =>
      rw [commit_of_pending_some hp]
      refine threaded_push (h := { t.history with pending := none }) ht.past (fun hfuture => ?_)
        (hr.pending s hp) t.current
      have hnewest := ht.newest hfuture
      rw [hp] at hnewest
      exact hnewest

theorem Threaded.record_replace (ht : Threaded t) (s : State) :
    Threaded ((t.step .record).step (.replace s)) := by
  refine ⟨ht.past, fun hfuture => ?_, fun hp => ?_⟩
  · have hkept : (t.history.record t.current).1.pending.getD s =
        t.history.pending.getD t.current := by rw [pending_record, Option.getD_some]
    show (t.history.record t.current).1.repeats
      ((t.history.record t.current).1.pending.getD s) = false
    rw [hkept]
    exact ht.newest hfuture
  · -- While changes are in progress nothing is said of what comes next.
    have hp : (t.history.record t.current).1.pending = none := hp
    rw [pending_record] at hp
    cases hp

theorem Threaded.checkpoint_replace (ht : Threaded t) (hr : Regular t) (s : State) :
    Threaded ((t.step .checkpoint).step (.replace s)) := by
  have hf := ht.commit hr
  refine threaded_push (h := t.history.flush.1) hf.past (fun hfuture => ?_) hr.current s
  have hnewest := hf.newest hfuture
  rw [commit_pending] at hnewest
  exact hnewest

/-- Going back, the newest entry becomes the tree, and the tree the next one. -/
theorem Threaded.undo (ht : Threaded t) (hr : Regular t) : Threaded (t.step .undo) := by
  have hf := ht.commit hr
  cases hpast : t.history.flush.1.past with
  | nil =>
      obtain ⟨htree, hhistory⟩ := undo_of_past_nil t.current hpast
      simp only [step, travel, htree, hhistory]
      exact hf
  | cons s past =>
      obtain ⟨htree, hhistory⟩ := hr.sound.undo_eq hpast t.current
      rw [hr.current.withoutVisualCrop_eq] at hhistory
      simp only [step, travel, htree, hhistory, Option.getD_some]
      have hchain := hf.past
      rw [← flush_fst, hpast] at hchain
      refine ⟨hchain.tail, fun _ => ?_, fun _ => ?_⟩
      · show repeats { t.history.flush.1 with past, future := _ }
          (t.history.flush.1.pending.getD s) = false
        rw [flush_fst, commit_pending]
        cases past with
        | nil => rfl
        | cons top past =>
            rw [repeats_of_past_cons rfl]
            exact (List.isChain_cons_cons.mp hchain).1
      · show (s :: t.current :: t.history.flush.1.future).dropLast.IsChain _
        cases hfuture : t.history.flush.1.future with
        | nil => exact .singleton s
        | cons next future =>
            have hnewest := hf.newest (by simp [← flush_fst, hfuture])
            rw [commit_pending, ← flush_fst, repeats_of_past_cons hpast] at hnewest
            have hahead := hf.ahead (commit_pending t.history)
            simp only [← flush_fst, hfuture] at hahead
            exact List.isChain_cons_cons.mpr ⟨hnewest, hahead⟩

/-- Going forward, the next tree becomes the tree, and the tree the newest entry. -/
theorem Threaded.redo (ht : Threaded t) (hr : Regular t) : Threaded (t.step .redo) := by
  have hf := ht.commit hr
  cases hfuture : t.history.flush.1.future with
  | nil =>
      obtain ⟨htree, hhistory⟩ := redo_of_future_nil t.current hfuture
      simp only [step, travel, htree, hhistory]
      exact hf
  | cons s future =>
      obtain ⟨htree, hhistory⟩ := hr.sound.redo_eq hfuture t.current
      rw [hr.current.withoutVisualCrop_eq] at hhistory
      simp only [step, travel, htree, hhistory, Option.getD_some]
      have hnewest := hf.newest (by simp [← flush_fst, hfuture])
      rw [commit_pending, ← flush_fst] at hnewest
      have hahead := hf.ahead (commit_pending t.history)
      simp only [← flush_fst, hfuture] at hahead
      refine ⟨?_, fun hne => ?_, fun _ => hahead.tail⟩
      · show (t.current :: t.history.flush.1.past).IsChain _
        cases hpast : t.history.flush.1.past with
        | nil => exact .singleton _
        | cons top past =>
            have hchain := hf.past
            rw [← flush_fst, hpast] at hchain
            rw [repeats_of_past_cons hpast] at hnewest
            exact List.isChain_cons_cons.mpr ⟨hnewest, hchain⟩
      · show repeats { t.history.flush.1 with past := t.current :: _, future }
          (t.history.flush.1.pending.getD s) = false
        rw [flush_fst, commit_pending, repeats_of_past_cons rfl]
        cases future with
        | nil => exact absurd rfl hne
        | cons next future => exact (List.isChain_cons_cons.mp hahead).1

/-- Every step but a replacement keeps neighbours different. -/
theorem Threaded.step (ht : Threaded t) (hr : Regular t) {st : Step}
    (hst : ∀ s, st ≠ .replace s) : Threaded (t.step st) := by
  cases st with
  | replace s => exact absurd rfl (hst s)
  | record => exact ht.record_replace t.current
  | pauseOver => exact ht.commit hr
  | flush => exact ht.commit hr
  | checkpoint => exact ht.checkpoint_replace hr t.current
  | cancel => exact ht
  | clear => exact threaded_start t.current t.history.limit
  | undo => exact ht.undo hr
  | redo => exact ht.redo hr

/-- Whether a step lets any tree follow. -/
def Step.opens : Step → Bool
  | .record | .checkpoint | .clear => true
  | _ => false

/-- A tree may be replaced after a step that lets any tree follow. -/
theorem Threaded.step_replace (ht : Threaded t) (hr : Regular t) {st : Step}
    (hst : st.opens = true) (s : State) : Threaded ((t.step st).step (.replace s)) := by
  cases st with
  | record => exact ht.record_replace s
  | checkpoint => exact ht.checkpoint_replace hr s
  | clear => exact threaded_start s t.history.limit
  | _ => cases hst

end Timeline

end Retouch
