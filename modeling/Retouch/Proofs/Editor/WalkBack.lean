/-
  Walking back through a run and forward again.

  After a run in which every step changed the tree, undo leads through the trees between the steps,
  newest first, and redo through the same trees again.  Both bring back the base image along with
  the tree, and both have a result whatever context is open.

  The trees that can be reached are a list that neither changes; a walk only moves along it
  (`Stands`).  The first undo may find a step in progress, so what is said of the history is said
  of it after a flush.
-/
import Retouch.Proofs.Editor.Journal

namespace Retouch.Editor

open Edit Editor.Core

/-! ## A place among the trees -/

/-- Whether an editor shows a tree of a list, with all the others to go back and forward to.  The
    list is newest first. -/
structure Stands (trees : List State) (i : Nat) (e : Editor) : Prop where
  here : trees[i]? = some e.root
  past : e.history.flush.1.past = trees.drop (i + 1)
  future : e.history.flush.1.future = (trees.take i).reverse
  sound : e.history.Sound
  grounded : e.core.Grounded
  stored : ∀ s ∈ trees, s.Stored

/-- Whether an editor shows a tree and edits the image that the tree names. -/
def Shows (e : Editor) (tree : Option State) : Prop :=
  tree = some e.root ∧ e.root.params.imagePath = some e.imagePath ∧
    e.root.params.originalDimensions = some e.size

variable {trees : List State} {i : Nat} {e : Editor}

theorem Stands.shows (h : Stands trees i e) : Shows e trees[i]? :=
  ⟨h.here, h.grounded.image, h.grounded.size⟩

/-- Bringing back a stored tree grounds the editor in it. -/
theorem grounded_withTree (e : Editor) {tree : State} (htree : tree.Stored) :
    (withTree e tree).core.Grounded ∧ (withTree e tree).root = tree := by
  obtain ⟨⟨imagePath, size, hname, himage, hsize⟩, hplain⟩ := htree
  obtain ⟨hroot, hpath, hdims⟩ := withTree_of_named (e := e) himage hsize hname
  refine ⟨⟨?_, ?_, ?_, ?_⟩, hroot⟩
  · show (withTree e tree).root.params.imagePath = some (withTree e tree).imagePath
    rw [hroot, hpath, himage]
  · show (withTree e tree).root.params.originalDimensions = some (withTree e tree).size
    rw [hroot, hdims, hsize]
  · show (withTree e tree).imagePath ≠ ""
    rw [hpath]
    exact hname
  · show (withTree e tree).root.Plain
    rw [hroot]
    exact hplain

/-- A step in the history that gives a stored tree has a result and shows the tree. -/
theorem travel_of_some {f : History → State → Option State × History × List History.Effect}
    {tree : State} {history : History} (htree : (f e.history e.root).1 = some tree)
    (hhistory : (f e.history e.root).2.1 = history) (hstored : tree.Stored) :
    ((travel f).run e).result = .ok true ∧
      ((travel f).run e).editor.root = tree ∧
      ((travel f).run e).editor.history = history ∧
      ((travel f).run e).editor.core.Grounded := by
  obtain ⟨b, hok, hcore⟩ := (travel_core f e).run_total rfl
  rw [htree, hhistory] at hcore
  obtain ⟨rfl, hcore⟩ := hcore
  obtain ⟨hground, hroot⟩ := grounded_withTree { e with history } hstored
  refine ⟨hok, ?_, ?_, ?_⟩
  · exact (congrArg Core.root hcore).trans hroot
  · exact (congrArg Core.history hcore).trans (history_withTree _ tree)
  · rw [hcore]
    exact hground

/-- A step in the history to a tree of the list, which leaves the older ones to go back to and the
    newer ones to go forward to, has a result and moves there. -/
theorem Stands.travel (h : Stands trees i e)
    {f : History → State → Option State × History × List History.Effect} {n : Nat}
    (hn : n < trees.length) (htree : (f e.history e.root).1 = some trees[n])
    (hhistory : (f e.history e.root).2.1 =
      { e.history.flush.1 with
        past := trees.drop (n + 1), future := (trees.take n).reverse })
    (hsound : (f e.history e.root).2.1.Sound) :
    ((travel f).run e).result = .ok true ∧ Stands trees n ((travel f).run e).editor := by
  obtain ⟨hok, hroot, hkept, hground⟩ :=
    travel_of_some htree hhistory (h.stored _ (List.getElem_mem hn))
  have hpending : ((Editor.travel f).run e).editor.history.pending = none := by
    rw [hkept]
    exact History.commit_pending e.history
  refine ⟨hok, ⟨?_, ?_, ?_, ?_, hground, h.stored⟩⟩
  · rw [hroot, List.getElem?_eq_getElem hn]
  · rw [History.flush_fst_of_pending_none hpending, hkept]
  · rw [History.flush_fst_of_pending_none hpending, hkept]
  · rw [hkept, ← hhistory]
    exact hsound

/-- An undo moves to the next older tree. -/
theorem Stands.undo (h : Stands trees i e) (hi : i + 1 < trees.length) :
    (undo.run e).result = .ok true ∧ Stands trees (i + 1) (e.apply (.command .undo)) := by
  have hpast : e.history.flush.1.past = trees[i + 1] :: trees.drop (i + 2) := by
    rw [h.past, List.drop_eq_getElem_cons hi]
  obtain ⟨htree, hhistory⟩ := h.sound.undo_eq hpast e.root
  have hplain : e.root.Plain := h.grounded.plain
  have hfuture : e.root :: e.history.flush.1.future = (trees.take (i + 1)).reverse := by
    rw [h.future, List.take_add_one, h.here]
    simp
  rw [hplain.withoutVisualCrop_eq, hfuture] at hhistory
  rw [apply, carryOut, editor_run_map]
  exact h.travel hi htree hhistory (h.sound.undo e.root)

/-- A redo moves to the next newer tree. -/
theorem Stands.redo (h : Stands trees (i + 1) e) :
    (redo.run e).result = .ok true ∧ Stands trees i (e.apply (.command .redo)) := by
  obtain ⟨hi1, hhere⟩ := List.getElem?_eq_some_iff.mp h.here
  have hi : i < trees.length := by omega
  have hfuture : e.history.flush.1.future = trees[i] :: (trees.take i).reverse := by
    rw [h.future, List.take_add_one, List.getElem?_eq_getElem hi]
    simp
  obtain ⟨htree, hhistory⟩ := h.sound.redo_eq hfuture e.root
  have hplain : e.root.Plain := h.grounded.plain
  have hpast : e.root :: e.history.flush.1.past = trees.drop (i + 1) := by
    rw [h.past, ← hhere, ← List.drop_eq_getElem_cons hi1]
  rw [hplain.withoutVisualCrop_eq, hpast] at hhistory
  rw [apply, carryOut, editor_run_map]
  exact h.travel hi htree hhistory (h.sound.redo e.root)

/-! ## Walks -/

/-- The editor after some undos. -/
def undone (e : Editor) (n : Nat) : Editor := e.after (List.replicate n (.command .undo))

/-- The editor after some redos. -/
def redone (e : Editor) (n : Nat) : Editor := e.after (List.replicate n (.command .redo))

theorem undone_succ (e : Editor) (n : Nat) :
    e.undone (n + 1) = (e.undone n).apply (.command .undo) := by
  unfold undone
  rw [List.replicate_succ', after_snoc]

theorem redone_succ (e : Editor) (n : Nat) :
    e.redone (n + 1) = (e.redone n).apply (.command .redo) := by
  unfold redone
  rw [List.replicate_succ', after_snoc]

/-- As many undos as there are older trees lead to each of them in turn. -/
theorem Stands.undone (h : Stands trees 0 e) {n : Nat} (hn : n < trees.length) :
    Stands trees n (e.undone n) := by
  induction n with
  | zero => exact h
  | succ n ih =>
      rw [undone_succ]
      exact ((ih (by omega)).undo hn).2

/-- As many redos as there are newer trees lead to each of them in turn. -/
theorem Stands.redone {k : Nat} (h : Stands trees k e) {n : Nat} (hn : n ≤ k) :
    Stands trees (k - n) (e.redone n) := by
  induction n with
  | zero => exact h
  | succ n ih =>
      have hbefore := ih (by omega)
      rw [show k - n = k - (n + 1) + 1 by omega] at hbefore
      rw [redone_succ]
      exact hbefore.redo.2

/-- After a run in which every step changed the tree, the editor stands before the newest trees of
    the journal, as many as the history holds. -/
theorem stands_of_follows {limit : Nat} {j : Journal} (hf : Follows limit j e.core)
    (hdiffer : Differ (e.root :: j.line)) :
    Stands ((e.root :: j.line).take (limit + 1)) 0 e := by
  have hstored : ∀ s ∈ (e.root :: j.line).take (limit + 1), s.Stored := by
    intro s hmem
    rcases List.mem_cons.mp (List.mem_of_mem_take hmem) with rfl | hmem
    · exact hf.grounded.stored
    · exact hf.stored s hmem
  rcases hf.kept hdiffer.tail with hk | ⟨starts, rfl⟩
  · rcases hk.flush hdiffer.tail hf.stored with hflush | hbegun
    · have hflush : e.history.flush.1 = { past := j.line.take limit, limit } := hflush
      refine ⟨rfl, ?_, ?_, hk.sound hf.stored, hf.grounded, hstored⟩
      · rw [hflush]
        rfl
      · rw [hflush]
        rfl
    · -- A step that changed nothing began with the tree that is shown, which would be there twice.
      have hline : j.line = e.root :: j.starts := by
        simp only [Journal.line, hbegun]
        rfl
      rw [hline] at hdiffer
      exact absurd hdiffer not_differ_of_twice
  · exact absurd hdiffer not_differ_of_twice

/-- **Undo walks back through a run, and redo forward again.**  Take any run of an editor that
    starts over, made of recorded operations that succeed, of switches of the context and of
    pauses, in which every step ends with another tree than it began with.  Up to the limit of the
    history, every undo has a result and brings back the tree and the base image between the steps
    before, and every redo after them those between the steps after. -/
theorem undo_redo_walk (e : Editor) (listening : Bool) (moves : List Move)
    (hname : e.imagePath ≠ "")
    (hmoves : Recorded (e.apply (.command (.startOver listening))) moves) :
    let first := e.apply (.command (.startOver listening))
    let last := first.after moves
    let trees := last.root :: (Journal.ofRun first moves).line
    Differ trees → ∀ k, k < trees.length → k ≤ e.history.limit →
      (∀ i < k, (undo.run (last.undone i)).result = .ok true) ∧
        (∀ i ≤ k, Shows (last.undone i) trees[i]?) ∧
        (∀ i < k, (redo.run ((last.undone k).redone i)).result = .ok true) ∧
        ∀ i ≤ k, Shows ((last.undone k).redone i) trees[k - i]? := by
  intro first last trees hdiffer k hlength hlimit
  have hf : Follows e.history.limit (Journal.ofRun first moves) last.core :=
    (follows_startOver e listening hname).continued hmoves
  have hstands : Stands (trees.take (e.history.limit + 1)) 0 last := stands_of_follows hf hdiffer
  have hk : k < (trees.take (e.history.limit + 1)).length := by
    rw [List.length_take]
    omega
  -- As far as `k` steps lead, the trees that the history holds are those of the journal.
  have hget : ∀ i ≤ k, (trees.take (e.history.limit + 1))[i]? = trees[i]? := by
    intro i hi
    exact List.getElem?_take_of_lt (by omega)
  refine ⟨?_, ?_, ?_, ?_⟩
  · intro i hi
    exact ((hstands.undone (by omega)).undo (by omega)).1
  · intro i hi
    rw [← hget i hi]
    exact (hstands.undone (by omega)).shows
  · intro i hi
    have hbefore := (hstands.undone hk).redone (Nat.le_of_lt hi)
    rw [show k - i = k - (i + 1) + 1 by omega] at hbefore
    exact hbefore.redo.1
  · intro i hi
    rw [← hget (k - i) (by omega)]
    exact ((hstands.undone hk).redone hi).shows

/-- The width is set, and then a layer is added, entered and given a width. -/
def widenPixel : List Move :=
  [.command (.update ⟨.object [("width", .int 1)], false⟩ true false), .pauseOver,
    .command (.addLayer pixelLayer), .command (.switchContext (some "dot")),
    .command (.update ⟨.object [("width", .int 2)], false⟩ true false)]

/-- An editor on an image that starts over. -/
def onBase (s : Settings) : Editor :=
  (start s "base.png" ⟨100, 100⟩ none).apply (.command (.startOver false))

set_option maxRecDepth 3000 in
theorem recorded_widenPixel (s : Settings) : Recorded (onBase s) widenPixel := by
  refine ⟨⟨rfl, fun _ => ?_⟩, ⟨rfl, fun _ => rfl⟩, ⟨rfl, fun _ => ?_⟩,
    ⟨rfl, fun h => absurd rfl h⟩, ⟨rfl, fun _ => ?_⟩, trivial⟩
  · cbv
  · cbv
  · cbv

set_option maxRecDepth 3000 in
theorem differ_widenPixel (s : Settings) :
    Differ (((onBase s).after widenPixel).root :: (Journal.ofRun (onBase s) widenPixel).line) := by
  cbv

set_option maxRecDepth 3000 in
theorem trees_widenPixel (s : Settings) :
    (((onBase s).after widenPixel).root :: (Journal.ofRun (onBase s) widenPixel).line)[3]? =
      some (onBase s).root := by
  cbv

/-- The width, the layer and the width of the layer are taken back by three undos, and a redo has a
    result then. -/
theorem undo_redo_walk_widenPixel :
    let last := (onBase {}).after widenPixel
    (undo.run last).result = .ok true ∧ (last.undone 3).root = (onBase {}).root ∧
      (redo.run (last.undone 3)).result = .ok true ∧
      Shows ((last.undone 3).redone 3) (some last.root) := by
  intro last
  obtain ⟨hundo, htrees, hredo, hback⟩ :=
    undo_redo_walk (start {} "base.png" ⟨100, 100⟩ none) false widenPixel (by decide)
      (recorded_widenPixel {}) (differ_widenPixel {}) 3
      (List.getElem?_eq_some_iff.mp (trees_widenPixel {})).1 (by decide)
  refine ⟨hundo 0 (by decide), ?_, hredo 0 (by decide), hback 3 (Nat.le_refl 3)⟩
  exact Option.some.inj ((htrees 3 (Nat.le_refl 3)).1.symm.trans (trees_widenPixel {}))

end Retouch.Editor
