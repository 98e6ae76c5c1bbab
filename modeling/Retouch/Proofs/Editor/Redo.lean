/-
  What is left to redo after a change.

  A change that joins others drops what was undone when its capture becomes an entry, but a capture
  that asks for the same as the newest entry never becomes one.  So a tree of a branch that was left
  can be brought back on top of the change exactly if it could be before and the changes in progress
  began with the newest entry (`redo_after_change`).

  That takes a change that is not recorded between the undo and the recorded one.  In a run in which
  every change is recorded nothing is left to redo.
-/
import Retouch.Proofs.Editor.Turns

namespace Retouch.Editor

open Edit Editor.Core

/-- A command that gives another tree has asked for its step. -/
theorem records_of_root_ne {e : Editor} {cmd : Command} {st : Timeline.Step}
    (hcmd : cmd.recording? = some st) (hroot : (e.apply (.command cmd)).root ≠ e.root) :
    Records st e.core (e.apply (.command cmd)).core :=
  (turns_apply hcmd).resolve_left fun hsame => hroot (congrArg Timeline.current hsame)

/-- **A recorded change drops what was undone, unless it began with the newest entry.**  Take an
    editor after any moves, any command that is recorded and gives another tree, and any moves
    meanwhile during which the capture waits.  When the pause ends, or a flush comes, something is
    left to redo exactly if there was something before and the newest entry asks for the same as the
    tree with which the changes in progress began; then both sides are as they were.  If until the
    command every change was recorded, and the base image had a name, nothing is left to redo.
    Trees ask for the same in the sense of `State.same`, to which all doubles that are no number are
    equal. -/
theorem redo_after_change (settings : Settings) (imagePath : String) (size : Size)
    (bounds : Option Size) (moves : List Move) (cmd : Command) (meanwhile : List Move)
    (hcmd : cmd.recording? = some .record) :
    let first := start settings imagePath size bounds
    let e := first.after moves
    let begun := e.history.pending.getD e.root
    let changed := e.apply (.command cmd)
    let last := changed.after meanwhile
    let h := (last.apply .pauseOver).history
    changed.root ≠ e.root →
      (∀ n < meanwhile.length,
        (changed.after (meanwhile.take (n + 1))).history.pending.isSome) →
      last.history.flush.1 = h ∧
        (h.future = [] ↔ e.history.future = [] ∨ e.history.repeats begun = false) ∧
        (h.future ≠ [] → h.past = e.history.past ∧ h.future = e.history.future) ∧
        ((∀ m ∈ moves, m.unrecorded = false) →
          (∀ n, (first.after (moves.take n)).imagePath ≠ "") → h.future = []) := by
  intro first e begun changed last h hroot hwaits
  have hrecords : changed.history = (e.history.record e.root).1 := records_of_root_ne hcmd hroot
  have hpending : changed.history.pending = some begun := by
    rw [hrecords, History.pending_record]
  obtain ⟨hpast, hfuture, hkept⟩ := waits_after hpending hwaits
  have hpast : last.history.past = e.history.past := by rw [hpast, hrecords]; rfl
  have hfuture : last.history.future = e.history.future := by rw [hfuture, hrecords]; rfl
  have hplain : begun.Plain := (regular_after settings imagePath size bounds moves).begun
  have hrepeats : last.history.repeats begun = e.history.repeats begun := by
    unfold History.repeats
    rw [hpast]
  have hleft : h.future = [] ↔ e.history.future = [] ∨ e.history.repeats begun = false := by
    rw [← hfuture, ← hrepeats]
    exact History.future_commit_eq_nil_iff hkept hplain
  refine ⟨rfl, hleft, fun hne => ?_, fun hrecorded hnamed => ?_⟩
  · obtain ⟨hpast', hfuture'⟩ := History.commit_of_future_ne_nil hkept hplain hne
    exact ⟨hpast'.trans hpast, hfuture'.trans hfuture⟩
  · have ht := threaded_after settings imagePath size bounds hrecorded hnamed
    refine hleft.mpr ?_
    by_cases hnone : e.history.future = []
    · exact Or.inl hnone
    · exact Or.inr (ht.newest hnone)

/-! ## Widths that are undone -/

/-- Gives the base image a width, or none. -/
def giveWidth (width : Value) (recorded : Bool) : Command :=
  .update ⟨.object [("width", width)], false⟩ recorded false

/-- Two widths, each an entry, of which the second is undone. -/
def undoWidth : List Move :=
  [.command (giveWidth (.int 1) true), .pauseOver, .command (giveWidth (.int 2) true), .pauseOver,
    .command .undo]

/-- The tree of a base image with a width. -/
def baseOfWidth (width : Option Int) : State :=
  ⟨{ imagePath := some "base.png", originalDimensions := some ⟨100, 100⟩, width }, none⟩

/-- An editor on a base image with a width. -/
def sized (s : Settings) (h : History) (width : Option Int) : Editor :=
  { start s "base.png" ⟨100, 100⟩ none with root := baseOfWidth width, history := h }

theorem plain_baseOfWidth (width : Option Int) : (baseOfWidth width).Plain := rfl

set_option maxRecDepth 4000 in
theorem same_baseOfWidth : (baseOfWidth none).same (baseOfWidth (some 1)) = false := by
  cbv

set_option maxRecDepth 4000 in
theorem apply_giveWidth (s : Settings) (h : History) (width : Option Int) (n : Int) :
    (sized s h width).apply (.command (giveWidth (.int n) true)) =
      sized s (h.record (baseOfWidth width)).1 (some n) := by
  cases width <;> cbv

set_option maxRecDepth 4000 in
theorem apply_giveWidth_null (s : Settings) (h : History) (width : Option Int) :
    (sized s h width).apply (.command (giveWidth .null false)) = sized s h none := by
  cases width <;> cbv

theorem apply_pauseOver (s : Settings) (h : History) (width : Option Int) :
    (sized s h width).apply .pauseOver = sized s h.commit.1 width := rfl

/-- With an entry for either width, undo brings back the first one. -/
theorem apply_undo_sized (s : Settings) (limit : Nat) (width : Option Int) :
    (sized s { limit, past := [baseOfWidth (some 1), baseOfWidth none] } width).apply
        (.command .undo) =
      sized s { limit, past := [baseOfWidth none], future := [baseOfWidth width].take limit }
        (some 1) := by
  cbv

/-- With the entry for no width, a change of the first one adds another and drops what was undone. -/
theorem record_commit (limit : Nat) (future : List State) :
    (({ limit := limit + 2, past := [baseOfWidth none], future } : History).record
        (baseOfWidth (some 1))).1.commit.1 =
      { limit := limit + 2, past := [baseOfWidth (some 1), baseOfWidth none] } := by
  have hnew : History.repeats { limit := limit + 2, past := [baseOfWidth none], future }
      (baseOfWidth (some 1)) = false := same_baseOfWidth
  rw [History.commit_record rfl, History.push_of_not_repeats (plain_baseOfWidth _) hnew]
  simp

/-- Before the first width there are no entries. -/
theorem start_sized : start {} "base.png" ⟨100, 100⟩ none = sized {} { limit := 50 } none := rfl

theorem commit_first :
    (({ limit := 50 } : History).record (baseOfWidth none)).1.commit.1 =
      { limit := 50, past := [baseOfWidth none] } := rfl

/-- Of the two widths, the first is to be undone next and the second to be redone. -/
theorem after_undoWidth :
    (start {} "base.png" ⟨100, 100⟩ none).after undoWidth =
      sized {} { limit := 50, past := [baseOfWidth none], future := [baseOfWidth (some 2)] }
        (some 1) := by
  have hsecond := record_commit 48 []
  simp only [undoWidth, after, List.foldl_cons, List.foldl_nil, start_sized, apply_giveWidth,
    apply_pauseOver, commit_first, hsecond, apply_undo_sized]
  rfl

/-- Taking the first width back without recording it leaves the history. -/
theorem after_undoWidth_taken :
    (start {} "base.png" ⟨100, 100⟩ none).after (undoWidth ++ [.command (giveWidth .null false)]) =
      sized {} { limit := 50, past := [baseOfWidth none], future := [baseOfWidth (some 2)] }
        none := by
  rw [after_snoc, after_undoWidth, apply_giveWidth_null]

theorem imagePath_undoWidth (n : Nat) :
    ((start {} "base.png" ⟨100, 100⟩ none).after (undoWidth.take n)).imagePath = "base.png" := by
  have hsecond := record_commit 48 []
  match n with
  | 0 => rfl
  | 1 | 2 | 3 | 4 | n + 5 =>
      simp only [undoWidth, after, List.take_succ_cons, List.take_zero, List.take_nil,
        List.foldl_cons, List.foldl_nil, start_sized, apply_giveWidth, apply_pauseOver,
        commit_first, hsecond, apply_undo_sized]
      rfl

theorem root_apply_giveWidth_ne {s : Settings} {h : History} {width : Option Int} {n : Int}
    (hwidth : width ≠ some n) :
    ((sized s h width).apply (.command (giveWidth (.int n) true))).root ≠
      (sized s h width).root := by
  rw [apply_giveWidth]
  intro heq
  exact hwidth (congrArg (fun s => s.params.width) heq).symm

/-- While one width is given after the other, the capture waits. -/
theorem waits_giveWidth (s : Settings) (h : History) (width : Option Int) (m n : Int) :
    ∀ k < [Move.command (giveWidth (.int n) true)].length,
      (((sized s h width).apply (.command (giveWidth (.int m) true))).after
        ([.command (giveWidth (.int n) true)].take (k + 1))).history.pending.isSome := by
  intro k hk
  obtain rfl : k = 0 := Nat.lt_one_iff.mp hk
  simp only [after, List.take_succ_cons, List.take_zero, List.foldl_cons, List.foldl_nil,
    apply_giveWidth]
  show ((h.record _).1.record _).1.pending.isSome
  rw [History.pending_record]
  rfl

/-- A second width is undone, the first one taken back without being recorded, and another one
    given: the second can be redone on top of it.  Without the change that is not recorded it
    cannot. -/
theorem redo_after_change_undoWidth :
    let first := start {} "base.png" ⟨100, 100⟩ none
    let wider := fun e : Editor =>
      ((e.apply (.command (giveWidth (.int 3) true))).after
        [.command (giveWidth (.int 4) true)]).apply .pauseOver
    (wider (first.after (undoWidth ++ [.command (giveWidth .null false)]))).history.future =
        [baseOfWidth (some 2)] ∧
      (wider (first.after undoWidth)).history.future = [] := by
  constructor
  · have hleft := redo_after_change {} "base.png" ⟨100, 100⟩ none
      (undoWidth ++ [.command (giveWidth .null false)]) (giveWidth (.int 3) true)
      [.command (giveWidth (.int 4) true)] rfl
    dsimp only at hleft ⊢
    rw [after_undoWidth_taken] at hleft ⊢
    obtain ⟨-, hleft, hkept, -⟩ := hleft (root_apply_giveWidth_ne (by decide))
      (waits_giveWidth _ _ _ 3 4)
    refine (hkept ?_).2
    rw [Ne, hleft, not_or]
    refine ⟨List.cons_ne_nil _ _, ?_⟩
    show ¬ (baseOfWidth none).same (baseOfWidth none) = false
    rw [State.same_refl]
    decide
  · have hnothing := redo_after_change {} "base.png" ⟨100, 100⟩ none undoWidth
      (giveWidth (.int 3) true) [.command (giveWidth (.int 4) true)] rfl
    dsimp only at hnothing ⊢
    rw [after_undoWidth] at hnothing ⊢
    obtain ⟨-, -, -, hnothing⟩ := hnothing (root_apply_giveWidth_ne (by decide))
      (waits_giveWidth _ _ _ 3 4)
    refine hnothing (fun m hm => ?_) fun n => ?_
    · simp only [undoWidth, List.mem_cons, List.not_mem_nil, or_false] at hm
      rcases hm with rfl | rfl | rfl | rfl | rfl <;> rfl
    · rw [imagePath_undoWidth]
      decide

end Retouch.Editor
