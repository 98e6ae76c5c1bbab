/-
  Going back and forward in an editor.

  A tree of the history may lack the layer that is being edited.  The context then becomes the
  longest start of its path that leads to a layer of the tree, so that what follows the step finds
  what it looks for: undo and redo have a result, whatever context is open (`travel_core`).
-/
import Retouch.Proofs.Editor.Steps

namespace Retouch.Editor

open Edit Editor.Core

/-! ## The longest start of a path -/

theorem resolves_longestValid (root : State) (path : List String) :
    root.Resolves (longestValid root path) := by
  induction path generalizing root with
  | nil => exact State.resolves_nil root
  | cons id rest ih =>
      unfold longestValid
      cases hl : root.child? id with
      | none => exact State.resolves_nil root
      | some l => exact State.resolves_cons.mpr ⟨l, hl, ih l.state⟩

/-- Every start of a path that leads somewhere is a start of the longest one. -/
theorem prefix_longestValid {root : State} {p q : List String} (hq : q <+: p)
    (hresolves : root.Resolves q) : q <+: longestValid root p := by
  induction p generalizing root q with
  | nil => exact hq
  | cons id rest ih =>
      cases q with
      | nil => exact List.nil_prefix
      | cons next q =>
          obtain ⟨rfl, htail⟩ := List.cons_prefix_cons.mp hq
          obtain ⟨l, hl, hrest⟩ := State.resolves_cons.mp hresolves
          unfold longestValid
          rw [hl]
          exact List.cons_prefix_cons.mpr ⟨rfl, ih htail hrest⟩

/-- A path that leads somewhere is kept whole. -/
theorem longestValid_of_resolves {root : State} {path : List String} (h : root.Resolves path) :
    longestValid root path = path :=
  have hstart := longestValid_prefix root path
  hstart.eq_of_length_le (prefix_longestValid List.prefix_rfl h).length_le

/-! ## Bringing back a tree -/

theorem path_withTree (e : Editor) (tree : State) :
    (withTree e tree).path = longestValid (withTree e tree).root e.path := by
  unfold withTree
  extract_lets base named path
  have hpath : named.path = e.path := by
    show base.path = e.path
    simp only [base]
    split
    · split <;> rfl
    · rfl
  have hkept : path = longestValid named.root e.path := by
    simp only [path, hpath]
  split
  · rename_i hsame
    rw [← hkept, hsame]
  · show (Context.ofPath path).path = _
    rw [Context.path_ofPath]
    exact hkept

theorem anchored_withTree (e : Editor) (tree : State) : (withTree e tree).core.Anchored := by
  show (withTree e tree).root.Resolves (withTree e tree).path
  rw [path_withTree]
  exact resolves_longestValid _ _

theorem history_withTree (e : Editor) (tree : State) :
    (withTree e tree).history = e.history := by
  unfold withTree
  extract_lets base named path
  have hhistory : base.history = e.history := by
    simp only [base]
    split
    · split <;> rfl
    · rfl
  split
  · exact hhistory
  · exact hhistory

/-- A tree that names an image brings back that image and is the tree then. -/
theorem withTree_of_named {e : Editor} {tree : State} {imagePath : String} {size : Size}
    (himage : tree.params.imagePath = some imagePath)
    (hsize : tree.params.originalDimensions = some size) (hname : imagePath ≠ "") :
    (withTree e tree).root = tree ∧ (withTree e tree).imagePath = imagePath ∧
      (withTree e tree).size = size := by
  have hroot : (identified { e with imagePath, size } tree) = tree := by
    obtain ⟨p, layers⟩ := tree
    simp only at himage hsize
    show State.mk { p with imagePath := some imagePath, originalDimensions := some size } layers = _
    rw [← himage, ← hsize]
  have hempty : imagePath.isEmpty = false := by
    simpa using hname
  unfold withTree
  simp only [himage, hsize, hempty, Bool.false_eq_true, if_false]
  split
  · exact ⟨hroot, rfl, rfl⟩
  · exact ⟨hroot, rfl, rfl⟩

/-! ## In a context that is a path of the tree nothing is missing -/

variable {c : Core}

theorem current_of_anchored {e : Editor} (h : e.core.Anchored) : ∃ s, e.current = .ok s := by
  obtain ⟨s, hs⟩ := State.Resolves.exists_state h
  refine ⟨s, ?_⟩
  unfold current
  rw [show e.root.stateAt? e.path = some s from hs]

/-- Telling observers does not fail. -/
theorem changed_total (hc : c.Anchored) :
    Triple (·.core = c) changed (fun _ e => e.core = c) (fun _ => False) := by
  have hannounce : Triple (·.core = c) announce (fun _ e => e.core = c) (fun _ => False) := by
    refine Triple.bind (R := fun _ e => e.core = c) (Triple.view ?_ ?_) fun listening => ?_
    · exact fun e _ he _ => he
    · exact fun e x he h => by cases h
    cases listening with
    | false => exact Triple.pure () fun _ he => he
    | true =>
        refine Triple.bind (R := fun _ e => e.core = c) (Triple.view ?_ ?_) fun s => ?_
        · exact fun e _ he _ => he
        · intro e x he hx
          obtain ⟨s, hs⟩ := current_of_anchored (e := e) (he ▸ hc)
          unfold visibleState at hx
          rw [hs] at hx
          cases hx
        · exact fun _ ht => ht
  exact Triple.bind hannounce fun _ => fun _ ht => ht

/-- Bringing back a tree does not fail. -/
theorem restoreTree_total (e : Editor) (tree : State) :
    Triple (· = e) (restoreTree tree) (fun _ e' => e'.core = (withTree e tree).core)
      (fun _ => False) := by
  have hanchored := anchored_withTree e tree
  refine Triple.bind (R := fun _ e' => e'.core = (withTree e tree).core)
    (Triple.change fun e' he => by rw [he]) fun _ => ?_
  generalize (withTree e tree).core = d at hanchored ⊢
  refine Triple.bind (R := fun _ e' => e'.core = d) (Triple.view ?_ ?_) fun selected => ?_
  · exact fun e' _ he _ => he
  · exact fun e' x he h => by cases h
  extract_lets finish
  have hfinish : ∀ u, Triple (·.core = d) (finish u) (fun _ e' => e'.core = d) (fun _ => False) :=
    fun _ => changed_total hanchored
  cases selected with
  | none => exact hfinish ()
  | some id =>
      refine Triple.bind (R := fun _ e' => e'.core = d) (Triple.view ?_ ?_) fun found => ?_
      · exact fun e' _ he _ => he
      · intro e' x he hx
        obtain ⟨s, hs⟩ := current_of_anchored (e := e') (he ▸ hanchored)
        unfold contextLayer? at hx
        rw [hs] at hx
        cases hx
      cases found with
      | some l => exact hfinish ()
      | none => exact Triple.bind (Triple.change fun _ he => he) hfinish

/-- Going back or forward has a result: without an entry nothing but the history changes, and
    otherwise the tree of the entry is brought back. -/
theorem travel_core (f : History → State → Option State × History × List History.Effect)
    (e : Editor) :
    Triple (· = e) (travel f)
      (fun b e' =>
        match (f e.history e.root).1 with
        | none => b = false ∧ e'.core = { e.core with history := (f e.history e.root).2.1 }
        | some tree =>
          b = true ∧
            e'.core = (withTree { e with history := (f e.history e.root).2.1 } tree).core)
      (fun _ => False) := by
  refine Triple.bind
    (R := fun found e' => found = (f e.history e.root).1 ∧
      e' = { e with history := (f e.history e.root).2.1 })
    (Triple.rewind ?_) fun found => ?_
  · rintro e' rfl
    exact ⟨rfl, rfl⟩
  refine Triple.of_forall ?_
  rintro e' ⟨rfl, rfl⟩
  cases hfound : (f e.history e.root).1 with
  | none =>
      refine Triple.pure false fun e' he => ⟨rfl, ?_⟩
      rw [he]
      rfl
  | some tree =>
      refine Triple.bind (restoreTree_total _ tree) fun _ => Triple.pure true fun e' he => ?_
      exact ⟨rfl, he⟩

end Retouch.Editor
