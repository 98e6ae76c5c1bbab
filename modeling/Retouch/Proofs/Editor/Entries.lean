/-
  Which operations leave an entry.

  The tree before a recorded operation becomes an entry, and what was undone is dropped, whether or
  not the operation changes anything: only a tree that the newest entry asks for already leaves both
  sides as they are (`recorded_leaves`).  So an operation without effect is in the history once, and
  an undo right after it leads to the same tree; further ones leave no trace.

  In a run in which every change is recorded, the newest entry differs from the tree as long as
  there is something to redo.  An undo changes the tree then, and an operation without effect drops
  what was undone.
-/
import Retouch.Proofs.Editor.Redo

namespace Retouch.Editor

open Edit Editor.Core

variable {e : Editor} {cmd : Command} {st : Timeline.Step}

/-- With no changes in progress, the steps that record add the tree to the entries. -/
theorem commit_step_recording {t : Timeline} (hcmd : cmd.recording? = some st)
    (hp : t.history.pending = none) :
    (t.step st).history.commit.1 = (t.history.push t.current).1 := by
  rcases Command.record_or_checkpoint hcmd with rfl | rfl
  · exact History.commit_record hp
  · exact History.commit_checkpoint hp

/-- A recorded operation asks for its step if it has a result and something to do. -/
theorem records_of_succeeds (hcmd : cmd.recording? = some st) (hok : e.succeeds (.command cmd))
    (hpasses : ¬ cmd.Passes e) : Records st e.core (e.apply (.command cmd)).core := by
  have hpost : Records st e.core (e.apply (.command cmd)).core ∨
      cmd.Passes e ∧ (e.apply (.command cmd)).core = e.core :=
    post_of_succeeds (turns_carryOut hcmd) hok
  exact hpost.resolve_right fun h => hpasses h.1

/-- Undo brings back the newest entry, if it is a tree that is stored. -/
theorem undo_of_head {s : State} (hp : e.history.pending = none)
    (hhead : e.history.past.head? = some s) (hstored : s.Stored) :
    (undo.run e).result = .ok true ∧ (e.apply (.command .undo)).root = s := by
  obtain ⟨past, hpast⟩ := List.head?_eq_some_iff.mp hhead
  rw [← History.flush_fst_of_pending_none hp] at hpast
  obtain ⟨htree, hhistory⟩ := History.undo_of_past_cons e.root hpast
  obtain ⟨hok, hroot, -, -⟩ := travel_of_some htree hhistory hstored
  rw [apply, carryOut, editor_run_map]
  exact ⟨hok, hroot⟩

/-- Without an entry there is nothing to undo. -/
theorem undo_of_past_nil (hp : e.history.pending = none) (hpast : e.history.past = []) :
    (undo.run e).result = .ok false := by
  rw [← History.flush_fst_of_pending_none hp] at hpast
  obtain ⟨b, hok, hcore⟩ := (travel_core History.undo e).run_total rfl
  rw [(History.undo_of_past_nil e.root hpast).1] at hcore
  rw [← hcore.1]
  exact hok

/-- **A recorded operation leaves an entry, unless the newest one asks for the same.**  Take an
    editor after any moves, without changes in progress, and any recorded operation.  Once the pause
    is over, both sides of the history are as they were, or the tree before the operation differed
    from the newest entry and is the newest entry now, and nothing is left to redo.  If the
    operation has a result and found what it is for, both sides are as they were exactly if the
    newest entry asks for the same as the tree before or there is no room for entries; the newest
    entry asks for the same as that tree afterwards.

    Undo has a result exactly if there is an entry, and brings back the newest one, so that it
    changes the tree unless the newest entry asks for the same.  That never happens while there is
    something to redo, if every change was recorded and the base image had a name.  Trees ask for the
    same in the sense of `State.same`, to which all doubles that are no number are equal. -/
theorem recorded_leaves (settings : Settings) (imagePath : String) (size : Size)
    (bounds : Option Size) (moves : List Move) (cmd : Command) (hcmd : cmd.recording?.isSome) :
    let first := start settings imagePath size bounds
    let e := first.after moves
    let h := e.history
    let h' := ((e.apply (.command cmd)).apply .pauseOver).history
    h.pending = none →
      (h'.past = h.past ∧ h'.future = h.future ∨
        h.repeats e.root = false ∧ h'.past = (e.root :: h.past).take h.limit ∧ h'.future = []) ∧
      (e.succeeds (.command cmd) → ¬ cmd.Passes e →
        (h'.past = h.past ∧ h'.future = h.future ↔ h.repeats e.root = true ∨ h.limit = 0) ∧
          (h.limit ≠ 0 → h'.repeats e.root = true)) ∧
      ((h.past = [] → (undo.run e).result = .ok false) ∧
        ∀ s ∈ h.past.head?, s.params.imagePath ≠ some "" →
          (undo.run e).result = .ok true ∧ (e.apply (.command .undo)).root = s) ∧
      ((∀ m ∈ moves, m.unrecorded = false) →
        (∀ n, (first.after (moves.take n)).imagePath ≠ "") →
        h.future ≠ [] → h.repeats e.root = false) := by
  intro first e h h' hp
  obtain ⟨st, hcmd⟩ := Option.isSome_iff_exists.mp hcmd
  have hr := regular_after settings imagePath size bounds moves
  have hplain : e.root.Plain := hr.current
  have hadds : Records st e.core (e.apply (.command cmd)).core → h' = (h.push e.root).1 := by
    intro hrecords
    show (e.apply (.command cmd)).history.commit.1 = _
    rw [show (e.apply (.command cmd)).history = _ from hrecords]
    exact commit_step_recording hcmd hp
  refine ⟨?_, fun hok hpasses => ?_, ⟨undo_of_past_nil hp, fun s hhead hname => ?_⟩,
    fun hrecorded hnamed hne => ?_⟩
  · rcases turns_apply hcmd with hsame | hrecords
    · left
      have hkept : h' = h := by
        show (e.apply (.command cmd)).history.commit.1 = h
        rw [show (e.apply (.command cmd)).history = h from congrArg Timeline.history hsame,
          History.commit_of_pending_none hp]
      rw [hkept]
      exact ⟨rfl, rfl⟩
    · rw [hadds hrecords]
      cases hnew : h.repeats e.root with
      | true =>
          rw [History.push_of_repeats hplain hnew]
          exact Or.inl ⟨rfl, rfl⟩
      | false =>
          rw [History.push_of_not_repeats hplain hnew]
          exact Or.inr ⟨rfl, rfl, rfl⟩
  · rw [hadds (records_of_succeeds hcmd hok hpasses)]
    exact ⟨History.push_unchanged_iff hr.sound hplain, History.repeats_push hplain⟩
  · obtain ⟨-, htrees⟩ := identifies_after settings imagePath size bounds moves
    obtain ⟨n, -, -, hidentifies⟩ := htrees s
      (List.mem_append_left _ (List.mem_append_left _ (List.mem_of_mem_head? hhead)))
    refine undo_of_head hp hhead (hidentifies.stored fun hempty => hname ?_)
    rw [hidentifies.image, hempty]
  · have ht := threaded_after settings imagePath size bounds hrecorded hnamed
    have hnewest := ht.newest hne
    rwa [show e.core.timeline.history.pending = none from hp] at hnewest

set_option maxRecDepth 4000 in
theorem succeeds_resetParams (s : Settings) (h : History) :
    (sized s h none).succeeds (.command .resetParams) = true := by
  cbv

/-- When the first width is taken back without being recorded, the tree is as in the newest entry,
    and clearing the settings leaves both sides as they are. -/
theorem recorded_leaves_undoWidth :
    let e := (start {} "base.png" ⟨100, 100⟩ none).after
      (undoWidth ++ [.command (giveWidth .null false)])
    let h := ((e.apply (.command .resetParams)).apply .pauseOver).history
    h.past = [baseOfWidth none] ∧ h.future = [baseOfWidth (some 2)] ∧
      (undo.run e).result = .ok true ∧ (e.apply (.command .undo)).root = e.root := by
  have hleaves := recorded_leaves {} "base.png" ⟨100, 100⟩ none
    (undoWidth ++ [.command (giveWidth .null false)]) .resetParams rfl
  dsimp only at hleaves ⊢
  rw [after_undoWidth_taken] at hleaves ⊢
  obtain ⟨-, hexact, ⟨-, hundo⟩, -⟩ := hleaves rfl
  obtain ⟨hunchanged, -⟩ := hexact (succeeds_resetParams _ _) id
  obtain ⟨hpast, hfuture⟩ := hunchanged.mpr (Or.inl (State.same_refl _))
  obtain ⟨hok, hroot⟩ := hundo (baseOfWidth none) rfl (by decide)
  exact ⟨hpast, hfuture, hok, hroot⟩

set_option maxRecDepth 4000 in
/-- An update that sets nothing leaves the tree and is recorded. -/
theorem apply_update_nothing (s : Settings) (h : History) (width : Option Int) :
    (sized s h width).apply (.command (.update ⟨.object [], false⟩ true false)) =
      sized s (h.record (baseOfWidth width)).1 width := by
  cases width <;> cbv

/-- With the second width undone, an update that sets nothing adds an entry and drops the second
    width, and an undo after it leads to the same tree. -/
theorem update_nothing_leaves_entry :
    let e := (start {} "base.png" ⟨100, 100⟩ none).after undoWidth
    let last := (e.apply (.command (.update ⟨.object [], false⟩ true false))).apply .pauseOver
    e.history.pending = none ∧ e.history.past = [baseOfWidth none] ∧
      e.history.future = [baseOfWidth (some 2)] ∧ last.root = e.root ∧
      last.history.past = [baseOfWidth (some 1), baseOfWidth none] ∧
      last.history.future = [] ∧ (undo.run last).result = .ok true ∧
      (last.apply (.command .undo)).root = last.root := by
  dsimp only
  have hadded := record_commit 48 [baseOfWidth (some 2)]
  rw [after_undoWidth, apply_update_nothing, apply_pauseOver, hadded, apply_undo_sized]
  have hstored : (baseOfWidth (some 1)).Stored :=
    ⟨⟨"base.png", ⟨100, 100⟩, by decide, rfl, rfl⟩, plain_baseOfWidth _⟩
  exact ⟨rfl, rfl, rfl, rfl, rfl, rfl, (undo_of_head rfl rfl hstored).1, rfl⟩

end Retouch.Editor
