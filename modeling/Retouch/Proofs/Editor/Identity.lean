/-
  The trees of an editor and the base image.

  Every tree of an editor names the base image at its root and nowhere below, and says nothing of
  the crop mode at its root.  Undo and redo only go to trees that the editor had, each with the
  base image that the editor had then (`identifies_after`), whatever documents the commands have
  and whether or not they fail.
-/
import Retouch.Proofs.Editor.Tidy

/-! ## Commands -/

namespace Retouch

/-- Whether a command has a document that marks a layer. -/
def Command.MarksLayers : Command → Prop
  | .update updates _ _ => updates.MarksLayers
  | .restore document => document.MarksLayers
  | .addLayer document => document.MarksLayer
  | .updateLayer _ updates _ => updates.Marks
  | .importTemplate text => TemplateMarksLayers text
  | _ => False

namespace Editor

open Edit Editor.Core

variable {α : Type} {strict : Prop} {T : State → Prop}

theorem sustains_answerDone {edit : Edit Unit} (h : Sustains strict T edit) :
    Sustains strict T (carryOut.answerDone edit) :=
  Triple.bind h fun _ => Triple.pure _ fun _ he => he

theorem sustains_of_core {edit : Edit α} (h : ∀ c, Keeps (·.core = c) edit) :
    Sustains strict T edit :=
  Sustains.of_keeps (keeps_of_core h)

/-- Every command leaves a tidy editor, if it marks no layers where that is `strict`. -/
theorem sustains_carryOut (hT : ∀ s, T s → s.Plain ∧ s.Bears (Params.Clean strict))
    (cmd : Command) (h : strict → ¬ cmd.MarksLayers) : Sustains strict T (carryOut cmd) := by
  have hplain : ∀ s, T s → s.Plain := fun s hs => (hT s hs).1
  cases cmd with
  | startOver listening => exact sustains_answerDone (sustains_startOver listening)
  | destroy => exact sustains_answerDone (sustains_of_core fun _ => keeps_destroy)
  | update updates recorded keepRatio =>
      exact sustains_answerDone (sustains_update recorded keepRatio h)
  | restore document => exact sustains_answerDone (sustains_restore h)
  | resetParams => exact sustains_answerDone (sustains_resetParams hT)
  | toggleAspect => exact Triple.map (sustains_of_core fun _ => keeps_toggleAspect)
  | undo => exact Triple.map (sustains_travel hT fun _ _ hh hs => hh.undo hplain hs)
  | redo => exact Triple.map (sustains_travel hT fun _ _ hh hs => hh.redo hplain hs)
  | addLayer document => exact Triple.map (sustains_addLayer hT h)
  | removeLayer id => exact sustains_answerDone (sustains_removeLayer hT id)
  | duplicateLayer id => exact Triple.map (sustains_duplicateLayer hT id)
  | updateLayer id updates recorded =>
      exact sustains_answerDone (sustains_updateLayer id recorded h)
  | reorder ids => exact sustains_answerDone (sustains_reorder ids)
  | select id => exact sustains_answerDone (sustains_of_core fun _ => keeps_select id)
  | switchContext id => exact sustains_answerDone (sustains_switchContext hT id)
  | replaceImage imagePath dimensions id =>
      exact sustains_answerDone (sustains_replaceImage hT imagePath dimensions id)
  | importTemplate text => exact Triple.map (sustains_importTemplate hT h)
  | notifyLoaded => exact sustains_answerDone (sustains_of_core fun _ => Keeps.ask _)

/-! ## Runs -/

/-- Whether a move has a document that marks a layer. -/
def Move.MarksLayers : Move → Prop
  | .command cmd => cmd.MarksLayers
  | _ => False

/-- What one move leaves. -/
theorem tidy_apply (hT : ∀ s, T s → s.Plain ∧ s.Bears (Params.Clean strict)) {e : Editor}
    (m : Move) (h : strict → ¬ m.MarksLayers) (he : Ready strict T e.core) :
    Tidy strict T (e.apply m).core := by
  cases m with
  | command cmd =>
      exact Triple.of_run (I := fun e => Tidy strict T e.core) (sustains_carryOut hT cmd h) he
        (fun _ _ => id) fun _ => id
  | crop enabled =>
      exact Keeps.of_run (I := fun e => Tidy strict T e.core)
        (keeps_of_core fun _ => keeps_setVisualCrop enabled) he.toTidy
  | pauseOver => exact he.toTidy.of_history (he.history.commit fun s hs => (hT s hs).1)

/-- Whether a tree is one that the editor had, before or after some of the moves. -/
def Had (strict : Prop) (e : Editor) (moves : List Move) (s : State) : Prop :=
  ∃ n ≤ moves.length, s = (e.after (moves.take n)).root ∧ Sound strict (e.after (moves.take n)).core

theorem Had.snoc {e : Editor} {moves : List Move} {s : State} (h : Had strict e moves s)
    (m : Move) : Had strict e (moves ++ [m]) s := by
  obtain ⟨n, hn, hs, hsound⟩ := h
  refine ⟨n, ?_, ?_⟩
  · rw [List.length_append]
    exact Nat.le_add_right_of_le hn
  · rw [List.take_append_of_le_length hn]
    exact ⟨hs, hsound⟩

/-- The editor stays tidy in every run, and its history only has trees that it had. -/
theorem tidy_after {e : Editor} {moves : List Move}
    (he : ∀ T, Tidy strict T e.core) (h : strict → ∀ m ∈ moves, ¬ m.MarksLayers) :
    Tidy strict (Had strict e moves) (e.after moves).core := by
  induction moves using List.reverseRecOn with
  | nil => exact he _
  | append_singleton moves m ih =>
      have hbefore := ih fun hstrict k hk => h hstrict k (List.mem_append_left _ hk)
      -- The tree that the last move finds is one that the editor had, so it may be recorded.
      have hnow : Had strict e moves (e.after moves).root := by
        refine ⟨moves.length, Nat.le_refl _, ?_⟩
        rw [List.take_length]
        exact ⟨rfl, hbefore.toSound⟩
      have hT : ∀ s, Had strict e moves s → s.Plain ∧ s.Bears (Params.Clean strict) := by
        rintro s ⟨n, -, rfl, hsound⟩
        exact ⟨hsound.plain, hsound.layers⟩
      have hm : strict → ¬ m.MarksLayers := fun hstrict =>
        h hstrict m (List.mem_append_right _ List.mem_cons_self)
      rw [after_snoc]
      have htidy := tidy_apply hT m hm ⟨hbefore, hnow⟩
      exact ⟨htidy.toSound, htidy.history.mono fun s hs => hs.snoc m⟩

/-! ## The base image -/

/-- Whether a tree is one of an editor's base image: it names the image at the root and at no layer
and does not say at the root that its crop is being edited by hand. -/
structure Identifies (e : Editor) (s : State) : Prop where
  image : s.params.imagePath = some e.imagePath
  size : s.params.originalDimensions = some e.size
  mark : s.params.visualCropEnabled = none
  layers : s.Bears fun p => p.imagePath = none ∧ p.originalDimensions = none

theorem Identifies.of_sound {e : Editor} (h : Sound strict e.core) : Identifies e e.root :=
  ⟨h.image, h.size, h.plain, h.layers.mono fun _ hp => ⟨hp.image, hp.size⟩⟩

theorem tidy_start (settings : Settings) (imagePath : String) (size : Size)
    (bounds : Option Size) : Tidy strict T (start settings imagePath size bounds).core :=
  ⟨⟨⟨rfl, rfl⟩, rfl, fun _ hl => nomatch hl⟩, History.Consists.empty _⟩

/-- **Every tree is one of the base image.**  In every run the tree of the editor is one of its base
image, and each tree of the history is one that the editor had, of the base image at that time. -/
theorem identifies_after (settings : Settings) (imagePath : String) (size : Size)
    (bounds : Option Size) (moves : List Move) :
    let first := start settings imagePath size bounds
    let e := first.after moves
    Identifies e e.root ∧
      ∀ s ∈ e.history.past ++ e.history.future ++ e.history.pending.toList,
        ∃ n ≤ moves.length, s = (first.after (moves.take n)).root ∧
          Identifies (first.after (moves.take n)) s := by
  intro first e
  have htidy : Tidy False (Had False first moves) e.core :=
    tidy_after (fun _ => tidy_start settings imagePath size bounds) False.elim
  refine ⟨.of_sound htidy.toSound, fun s hs => ?_⟩
  have hhad : Had False first moves s := by
    simp only [List.mem_append, Option.mem_toList] at hs
    rcases hs with (hs | hs) | hs
    · exact htidy.history.past s hs
    · exact htidy.history.future s hs
    · exact htidy.history.pending s hs
  obtain ⟨n, hn, rfl, hsound⟩ := hhad
  exact ⟨n, hn, rfl, .of_sound hsound⟩

end Editor

end Retouch
