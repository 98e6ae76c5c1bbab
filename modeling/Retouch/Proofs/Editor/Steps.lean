/-
  What each operation does to an editor, as far as its history is concerned.

  The core of an editor is its tree, the context in which it is edited, the history and the base
  image.  Every operation has one triple here, from an arbitrary core.  A change stays in its
  context (`Stays`), and one that is recorded in the history leaves a tree that names the base
  image, if the tree before did (`Makes`).  What is proved of runs of the editor elsewhere only
  uses these triples.
-/
import Retouch.Editor.Command
import Retouch.Proofs.Editor.Logic
import Retouch.Proofs.State.Plain
import Retouch.Proofs.Tree.Path

namespace Retouch.Editor

open Edit

variable {α β : Type}

/-! ## Cores -/

/-- What a history is about: the tree, the context, the entries and the base image. -/
structure Core where
  root : State
  context : Context
  history : History
  imagePath : String
  size : Size

/-- The core of an editor. -/
def core (e : Editor) : Core := ⟨e.root, e.context, e.history, e.imagePath, e.size⟩

namespace Core

/-- Whether the context is a path in the tree. -/
def Anchored (c : Core) : Prop := c.root.Resolves c.context.path

/-- A tree for the base image. -/
def identified (c : Core) (s : State) : State :=
  { s with
    params := { s.params with imagePath := some c.imagePath, originalDimensions := some c.size } }

/-- Whether the tree names the base image, which is not without name, and is stored as it is. -/
structure Grounded (c : Core) : Prop where
  image : c.root.params.imagePath = some c.imagePath
  size : c.root.params.originalDimensions = some c.size
  nonempty : c.imagePath ≠ ""
  plain : c.root.Plain

/-- A step that stays in its context. -/
structure Stays (c c' : Core) : Prop where
  context : c'.context = c.context
  anchored : c.Anchored → c'.Anchored

/-- A change that leaves a history. -/
structure Makes (history : History) (c c' : Core) : Prop extends Stays c c' where
  history : c'.history = history
  grounded : c.Grounded → c'.Grounded

variable {c c' : Core} {h : History}

theorem Stays.refl (c : Core) : Stays c c := ⟨rfl, id⟩

theorem Stays.of_eq (heq : c' = c) : Stays c c' := heq ▸ Stays.refl c

theorem Stays.of_history (hs : Stays { c with history := h } c') : Stays c c' :=
  ⟨hs.context, hs.anchored⟩

theorem Makes.of_history {k : History} (hm : Makes k { c with history := h } c') : Makes k c c' :=
  ⟨⟨hm.context, hm.anchored⟩, hm.history, fun hg => hm.grounded ⟨hg.1, hg.2, hg.3, hg.4⟩⟩

/-- A change that leaves a history, except that the new base image may be without name. -/
def Swaps (imagePath : String) (history : History) (c c' : Core) : Prop :=
  Stays c c' ∧ (imagePath ≠ "" → Makes history c c')

theorem Makes.swaps (hm : Makes h c c') (imagePath : String) : Swaps imagePath h c c' :=
  ⟨hm.toStays, fun _ => hm⟩

theorem Swaps.of_history {imagePath : String} {k : History}
    (hs : Swaps imagePath k { c with history := h } c') : Swaps imagePath k c c' :=
  ⟨hs.1.of_history, fun hname => (hs.2 hname).of_history⟩

/-- A new tree for the same image, in which the context leads somewhere. -/
theorem Makes.of_root {root : State} (hroot : root.Resolves c.context.path)
    (hground : c.Grounded → Grounded { c with root }) : Makes c.history c { c with root } :=
  ⟨⟨rfl, fun _ => hroot⟩, rfl, hground⟩

/-- A new tree with the same settings at the root still names the base image. -/
theorem Grounded.of_params {root : State} (hg : c.Grounded) (hp : root.params = c.root.params) :
    Grounded { c with root } :=
  ⟨hp ▸ hg.image, hp ▸ hg.size, hg.nonempty,
    show root.params.visualCropEnabled = none from hp ▸ hg.plain⟩

/-- Neither the context nor the history matters to that. -/
theorem Grounded.elsewhere (hg : c.Grounded) (context : Context) (history : History) :
    Grounded { c with context, history } :=
  ⟨hg.image, hg.size, hg.nonempty, hg.plain⟩

/-- A tree that was made for the base image names it. -/
theorem Grounded.of_identified {s : State} (hname : c.imagePath ≠ "") (hplain : s.Plain) :
    Grounded { c with root := c.identified s } :=
  ⟨rfl, rfl, hname, hplain⟩

end Core

open Editor.Core

variable {c : Core}

theorem path_eq {e : Editor} (he : e.core = c) : e.path = c.context.path := by
  rw [← he]
  rfl

theorem identified_eq {e : Editor} (he : e.core = c) (s : State) :
    e.identified s = c.identified s := by
  rw [← he]
  rfl

theorem core_root {e : Editor} (he : e.core = c) (root : State) :
    core { e with root } = { c with root } := by
  rw [← he]
  rfl

/-- What is edited is found by following the context. -/
theorem stateAt?_of_current {e : Editor} {s : State} (hs : e.current = .ok s) :
    e.root.stateAt? e.path = some s := by
  unfold current at hs
  split at hs
  · rename_i t ht
    rw [ht, Except.ok.inj hs]
  · cases hs

/-- At the root the state that is edited is the tree. -/
theorem current_of_nil {e : Editor} {s : State} (he : e.core = c) (hpath : c.context.path = [])
    (hs : e.current = .ok s) : s = c.root := by
  have hs := stateAt?_of_current hs
  rw [path_eq he, hpath] at hs
  rw [← he]
  exact (Option.some.inj hs).symm

/-! ## Steps that operations share -/

theorem recordBy_makes (f : History → State → History × List History.Effect) :
    Triple (·.core = c) (recordBy f)
      (fun _ e => e.core = { c with history := (f c.history c.root).1 }) (·.core = c) := by
  refine Triple.recordBy fun e he => ?_
  rw [← he]
  rfl

theorem keeps_check (k : Check α) : Keeps (·.core = c) (Edit.check k) :=
  Keeps.check k fun _ _ he => he

/-- Giving what is edited a new state changes the tree.  The state is only stored as it is at the
    root, so only there it matters that it does not have the mark of the crop mode. -/
theorem writeCurrent_makes (s : State) (hs : c.context.path = [] → c.Grounded → s.Plain) :
    Triple (·.core = c) (writeCurrent s) (fun _ e => Makes c.history c e.core) (·.core = c) := by
  refine Triple.bind_view fun e he => Triple.mapRoot ?_ ?_
  · rintro e' root rfl hroot
    rw [core_root he]
    by_cases hpath : e'.path.isEmpty
    · rw [if_pos hpath, identified_eq he] at hroot
      rw [path_eq he, List.isEmpty_iff] at hpath
      obtain rfl := Except.ok.inj hroot
      refine Makes.of_root ?_ fun hg => Grounded.of_identified hg.nonempty (hs hpath hg)
      rw [hpath]
      exact State.resolves_nil _
    · rw [if_neg hpath, path_eq he] at hroot
      have hbase : e'.root = c.root := congrArg Core.root he
      rw [hbase] at hroot
      exact Makes.of_root (State.resolves_setTransformsAt hroot) fun hg =>
        hg.of_params (State.params_setTransformsAt hroot)
  · rintro e' x rfl hroot
    exact he

/-- Giving the context other layers changes the tree. -/
theorem updateLayers_makes (f : List Layer → List Layer) :
    Triple (·.core = c) (updateLayers f) (fun _ e => Makes c.history c e.core) (·.core = c) := by
  refine Triple.bind_view fun e he => Triple.mapRoot ?_ ?_
  · rintro e' root rfl hroot
    rw [core_root he]
    have hbase : e'.root = c.root := congrArg Core.root he
    rw [path_eq he, hbase] at hroot
    exact Makes.of_root (State.resolves_updateLayersAt hroot) fun hg =>
      hg.of_params (State.updateLayersAt_ok hroot).1
  · rintro e' x rfl hroot
    exact he

/-- Replacing a layer of the context changes the tree. -/
theorem replaceLayer_makes (id : String) (f : Layer → Layer) :
    Triple (·.core = c) (replaceLayer id f) (fun _ e => Makes c.history c e.core)
      (·.core = c) := by
  refine Triple.bind_view fun e he => Triple.mapRoot ?_ ?_
  · rintro e' root rfl hroot
    rw [core_root he]
    have hbase : e'.root = c.root := congrArg Core.root he
    rw [path_eq he, hbase] at hroot
    exact Makes.of_root (State.resolves_replaceLayerAt_snoc hroot) fun hg =>
      hg.of_params (State.params_replaceLayerAt hroot)
  · rintro e' x rfl hroot
    exact he

/-- Once a change is made, telling observers neither adds to it nor takes it back. -/
theorem changed_makes {h : History} :
    Triple (fun e => Makes h c e.core) changed (fun _ e => Makes h c e.core)
      (fun e => Stays c e.core) :=
  Triple.conseq (keeps_changed (I := fun e => Makes h c e.core)) (fun _ => id) (fun _ _ => id)
    fun _ hm => hm.toStays

/-- A recorded change: an entry, and then a step that makes the change from any core. -/
theorem recorded {M : History → Core → Core → Prop}
    (hmade : ∀ {c c' h k}, M k { c with history := h } c' → M k c c')
    {f : History → State → History × List History.Effect} {m : Unit → Edit α}
    (hm : ∀ c, Triple (·.core = c) (m ()) (fun _ e => M c.history c e.core)
      (fun e => Stays c e.core)) :
    Triple (·.core = c) (recordBy f >>= m)
      (fun _ e => M (f c.history c.root).1 c e.core) (fun e => Stays c e.core) := by
  refine Triple.bind ((recordBy_makes f).conseq (fun _ => id) (fun _ _ => id)
    fun e he => Stays.of_eq he) fun _ => ?_
  refine (hm { c with history := (f c.history c.root).1 }).conseq (fun _ => id) (fun _ e he => ?_)
    fun e he => ?_
  · exact hmade he
  · exact he.of_history

theorem recorded_makes {f : History → State → History × List History.Effect} {m : Unit → Edit α}
    (hm : ∀ c, Triple (·.core = c) (m ()) (fun _ e => Makes c.history c e.core)
      (fun e => Stays c e.core)) :
    Triple (·.core = c) (recordBy f >>= m)
      (fun _ e => Makes (f c.history c.root).1 c e.core) (fun e => Stays c e.core) :=
  recorded (M := Makes) Makes.of_history hm

/-- A step before a change that leaves the core alone, also when it fails. -/
theorem bind_idle {m : Edit α} {f : α → Edit β} {post : β → Editor → Prop}
    (hm : Keeps (·.core = c) m)
    (hf : ∀ a, Triple (·.core = c) (f a) post (fun e => Stays c e.core)) :
    Triple (·.core = c) (m >>= f) post (fun e => Stays c e.core) :=
  Triple.bind (hm.conseq (fun _ => id) (fun _ _ => id) fun _ he => Stays.of_eq he) hf

/-- A change, and then what follows it. -/
theorem bind_made {h : History} {m : Edit β} {f : β → Edit α}
    (hm : Triple (·.core = c) m (fun _ e => Makes h c e.core) (·.core = c))
    (hf : ∀ b, Triple (fun e => Makes h c e.core) (f b) (fun _ e => Makes h c e.core)
      (fun e => Stays c e.core)) :
    Triple (·.core = c) (m >>= f) (fun _ e => Makes h c e.core) (fun e => Stays c e.core) :=
  Triple.bind (hm.conseq (fun _ => id) (fun _ _ => id) fun _ he => Stays.of_eq he) hf

theorem changed_pure_makes {h : History} (a : α) :
    Triple (fun e => Makes h c e.core) (changed >>= fun _ => pure a)
      (fun _ e => Makes h c e.core) (fun e => Stays c e.core) :=
  changed_makes.bind fun _ => Triple.pure a fun _ => id

/-! ## Settings -/

/-- Completing a wanted size only adds a change of an extent. -/
theorem mem_keepRatio {cs out : Changes} {ratio : Float} (h : cs.keepRatio ratio = .ok out)
    {x : Field × Value} (hx : x ∈ out) : x.1 = .width ∨ x.1 = .height ∨ x ∈ cs := by
  unfold Changes.keepRatio at h
  split at h
  · obtain ⟨d, -, h⟩ := of_bind_eq_ok h
    obtain ⟨q, -, h⟩ := of_bind_eq_ok h
    obtain ⟨v, -, rfl⟩ := of_map_eq_ok h
    rcases Changes.mem_put hx with rfl | hmem
    · exact Or.inr (Or.inl rfl)
    · exact Or.inr (Or.inr hmem)
  · obtain ⟨d, -, h⟩ := of_bind_eq_ok h
    obtain ⟨v, -, rfl⟩ := of_map_eq_ok h
    rcases Changes.mem_put hx with rfl | hmem
    · exact Or.inl rfl
    · exact Or.inr (Or.inr hmem)
  · cases h
    exact Or.inr (Or.inr hx)

/-- The changes that are applied are of an extent or were given, and never set the mark of the crop
    mode. -/
theorem mem_completed {cs out : Changes} {b : Bool} {ratio : Except Failure Float}
    (h : (if b then do (cs.drop .visualCropEnabled |>.drop .imagePath
      |>.drop .originalDimensions).keepRatio (← ratio)
      else .ok (cs.drop .visualCropEnabled |>.drop .imagePath |>.drop .originalDimensions)) =
        .ok out) {x : Field × Value} (hx : x ∈ out) :
    x.1 = .width ∨ x.1 = .height ∨ x.1 ≠ .visualCropEnabled ∧ x ∈ cs := by
  have hdrop : ∀ y ∈ ((cs.drop .visualCropEnabled).drop .imagePath).drop .originalDimensions,
      y.1 ≠ .visualCropEnabled ∧ y ∈ cs := by
    intro y hy
    have hy := (List.mem_filter.mp (List.mem_filter.mp hy).1).1
    obtain ⟨hmem, hne⟩ := List.mem_filter.mp hy
    exact ⟨by simpa using hne, hmem⟩
  split at h
  · obtain ⟨r, -, h⟩ := of_bind_eq_ok h
    rcases mem_keepRatio h hx with heq | heq | hmem
    · exact Or.inl heq
    · exact Or.inr (Or.inl heq)
    · exact Or.inr (Or.inr (hdrop x hmem))
  · cases h
    exact Or.inr (Or.inr (hdrop x hx))

theorem ne_visualCropEnabled_of_completed {cs out : Changes} {b : Bool}
    {ratio : Except Failure Float}
    (h : (if b then do (cs.drop .visualCropEnabled |>.drop .imagePath
      |>.drop .originalDimensions).keepRatio (← ratio)
      else .ok (cs.drop .visualCropEnabled |>.drop .imagePath |>.drop .originalDimensions)) =
        .ok out) :
    ∀ x ∈ out, x.1 ≠ .visualCropEnabled := by
  intro x hx
  rcases mem_completed h hx with heq | heq | ⟨hne, -⟩
  · simp [heq]
  · simp [heq]
  · exact hne

/-- Merging changes into what is edited changes the tree. -/
theorem merge_makes {cs : Changes} (hcs : ∀ x ∈ cs, x.1 ≠ .visualCropEnabled) :
    Triple (·.core = c)
      (do
        let s ← Edit.view current
        let merged ← Edit.check (s.merged cs)
        writeCurrent merged
        changed)
      (fun _ e => Makes c.history c e.core) (fun e => Stays c e.core) := by
  refine Triple.bind_found (R := fun s => c.context.path = [] → s = c.root) (fun _ => Stays.of_eq)
    (fun e s he hs hpath => current_of_nil he hpath hs) fun s hs => ?_
  refine Triple.bind_checked (R := fun t => c.context.path = [] → c.Grounded → t.Plain)
    (fun _ _ he => he) (fun _ => Stays.of_eq) ?_ fun merged hplain => ?_
  · intro n t hrun hpath hg
    exact (State.plain_of_merged (hs hpath ▸ hg.plain) hcs).of_run hrun
  exact bind_made (writeCurrent_makes merged hplain) fun _ => changed_makes

/-- A change of settings is recorded if that is wanted. -/
theorem update_makes (updates : Updates) (recorded keepRatio : Bool) :
    Triple (·.core = c) (update updates recorded keepRatio)
      (fun _ e => Makes (if recorded then (c.history.record c.root).1 else c.history) c e.core)
      (fun e => Stays c e.core) := by
  unfold update
  refine bind_idle (keeps_check _) fun changes => ?_
  extract_lets kept noted
  have hnoted : ∀ u, Triple (·.core = c) (noted u)
      (fun _ e => Makes (if recorded then (c.history.record c.root).1 else c.history) c e.core)
      (fun e => Stays c e.core) := by
    intro u
    refine Triple.bind_found (fun _ => Stays.of_eq)
      (fun _ _ _ => ne_visualCropEnabled_of_completed) fun completed hcs => ?_
    have hmerge : ∀ c, Triple (·.core = c) _ (fun _ e => Makes c.history c e.core)
        (fun e => Stays c e.core) := fun c => merge_makes hcs
    cases recorded with
    | true => exact recorded_makes hmerge
    | false => exact hmerge c
  split
  · exact bind_idle (Triple.change fun _ he => he) hnoted
  · exact hnoted ()

/-- Replacing the whole state is not recorded. -/
theorem restore_makes (document : Updates) :
    Triple (·.core = c) (restore document) (fun _ e => Stays c e.core)
      (fun e => Stays c e.core) := by
  unfold restore
  refine bind_idle (keeps_check _) fun s => ?_
  extract_lets names rest
  have hrest : ∀ u, Triple (fun e => Stays c e.core) (rest u) (fun _ e => Stays c e.core)
      (fun e => Stays c e.core) := by
    intro u
    refine Triple.of_forall fun e he => ?_
    refine Triple.bind (R := fun _ e' => e'.core = e.core) (Triple.change ?_) fun _ => ?_
    · rintro e' rfl
      rfl
    refine (bind_made (writeCurrent_makes s.withoutVisualCrop fun _ _ => rfl)
      fun _ => changed_makes).conseq (fun _ => id) (fun _ e' hm => ?_) fun e' hs => ?_
    · exact ⟨hm.context.trans he.context, fun hc => hm.anchored (he.anchored hc)⟩
    · exact ⟨hs.context.trans he.context, fun hc => hs.anchored (he.anchored hc)⟩
  clear_value names
  cases names with
  | some named =>
      refine Triple.bind (Triple.change fun e he => ?_) hrest
      rw [← he]
      split
      · exact ⟨rfl, id⟩
      · exact Stays.refl _
  | none => exact (hrest ()).pre_mono fun e he => Stays.of_eq he

/-- Clearing the settings is recorded at once. -/
theorem resetParams_makes :
    Triple (·.core = c) resetParams
      (fun _ e => Makes (c.history.checkpoint c.root).1 c e.core) (fun e => Stays c e.core) := by
  refine recorded_makes fun c => ?_
  refine bind_idle (Keeps.view _) fun s => ?_
  refine bind_idle (Triple.change fun _ he => he) fun _ => ?_
  exact bind_made (writeCurrent_makes _ fun _ _ => rfl) fun _ => changed_makes

/-- What does not depend on the lock on the ratio of the sides is kept. -/
theorem keeps_toggleAspect_of {I : Editor → Prop}
    (hI : ∀ e aspectLocked lockedRatio, I e → I { e with aspectLocked, lockedRatio }) :
    Keeps I toggleAspect := by
  refine Keeps.bind (Triple.change fun e => hI e (!e.aspectLocked) e.lockedRatio) fun _ => ?_
  refine (Keeps.view _).bind fun s => (Keeps.view _).bind fun e => ?_
  extract_lets answer
  have hanswer : ∀ u, Keeps I (answer u) := fun _ => Keeps.pure _
  split
  · refine (Keeps.view _).bind fun ratio => ?_
    split
    · exact Keeps.bind (Triple.change fun e => hI e e.aspectLocked (some _)) hanswer
    · exact hanswer ()
  · exact Keeps.bind (Triple.change fun e => hI e e.aspectLocked none) hanswer

theorem keeps_toggleAspect : Keeps (·.core = c) toggleAspect :=
  keeps_toggleAspect_of fun _ _ _ => id

/-! ## Layers -/

/-- Adding a layer is recorded at once. -/
theorem addLayer_makes (document : Value) :
    Triple (·.core = c) (addLayer document)
      (fun _ e => Makes (c.history.checkpoint c.root).1 c e.core) (fun e => Stays c e.core) := by
  refine bind_idle (keeps_check _) fun l => ?_
  refine recorded_makes fun c => ?_
  exact bind_made (updateLayers_makes _) fun _ => changed_pure_makes l

/-- Removing a layer is recorded at once; without the layer nothing happens. -/
theorem removeLayer_makes (id : String) :
    Triple (·.core = c) (removeLayer id)
      (fun _ e => e.core = c ∨ Makes (c.history.checkpoint c.root).1 c e.core)
      (fun e => Stays c e.core) := by
  refine bind_idle (Keeps.view _) fun found => ?_
  cases found with
  | none => exact Triple.pure () fun _ he => Or.inl he
  | some l =>
      refine (recorded_makes fun c => ?_).post_mono fun _ _ hm => Or.inr hm
      refine bind_made (updateLayers_makes _) fun _ => ?_
      refine Triple.bind (Triple.change fun e hm => ?_) fun _ => changed_makes
      split
      · exact hm
      · exact hm

/-- Copying a layer is recorded at once; without the layer nothing happens. -/
theorem duplicateLayer_makes (id : String) :
    Triple (·.core = c) (duplicateLayer id)
      (fun _ e => e.core = c ∨ Makes (c.history.checkpoint c.root).1 c e.core)
      (fun e => Stays c e.core) := by
  refine bind_idle (Keeps.view _) fun found => ?_
  cases found with
  | none => exact Triple.pure none fun _ he => Or.inl he
  | some l =>
      refine bind_idle (keeps_check _) fun fresh => ?_
      refine bind_idle (Keeps.view _) fun copy => ?_
      refine (recorded_makes fun c => ?_).post_mono fun _ _ hm => Or.inr hm
      exact bind_made (updateLayers_makes _) fun _ => changed_pure_makes (some copy)

theorem idle_newTransforms (l : Layer) (v : Value) (preset : Option (List Field × State))
    (replace : Bool) : Idle (newTransforms l v preset replace) := by
  unfold newTransforms
  split
  · extract_lets rest
    have hrest : ∀ changes, Idle (rest changes) :=
      fun _ => (Idle.check _).bind fun _ => Idle.pure _
    cases preset with
    | some given => exact (Idle.pure _).bind hrest
    | none => exact (Idle.view _).bind hrest
  · cases preset with
    | some given => exact Idle.pure _
    | none => exact (Idle.check _).bind fun _ => Idle.pure _

/-- Working out a layer with updates changes nothing. -/
theorem idle_updatedLayer (l : Layer) (u : LayerUpdates) (preset : Option (List Field × State)) :
    Idle (updatedLayer l u preset) := by
  refine (Idle.view _).bind fun es => ?_
  extract_lets es props rest
  have hrest : ∀ updated, Idle (rest updated) := by
    intro updated
    simp only [rest]
    split
    · exact Idle.pure _
    · exact Idle.pure _
    · exact (idle_newTransforms l _ preset u.replace).bind fun _ => Idle.pure _
  split
  · exact (Idle.pure l).bind hrest
  · exact (Idle.check _).bind hrest

/-- Updating a layer is recorded if that is wanted; without the layer nothing happens. -/
theorem updateLayer_makes (id : String) (u : LayerUpdates) (recorded : Bool) :
    Triple (·.core = c) (updateLayer id u recorded)
      (fun _ e => e.core = c ∨
        Makes (if recorded then (c.history.record c.root).1 else c.history) c e.core)
      (fun e => Stays c e.core) := by
  refine bind_idle (keeps_check _) fun preset => ?_
  refine bind_idle (Keeps.view _) fun found => ?_
  cases found with
  | none => exact Triple.pure () fun _ he => Or.inl he
  | some l =>
      have hupdated : Keeps (·.core = c) (updatedLayer l u preset) :=
        (idle_updatedLayer l u preset).keeps fun _ _ he => he
      refine bind_idle hupdated fun updated => ?_
      have hreplace : ∀ c, Triple (·.core = c)
          (do
            replaceLayer id fun _ => updated
            changed)
          (fun _ e => Makes c.history c e.core) (fun e => Stays c e.core) :=
        fun c => bind_made (replaceLayer_makes id _) fun _ => changed_makes
      refine Triple.post_mono ?_ fun _ _ hm => Or.inr hm
      cases recorded with
      | true => exact recorded_makes hreplace
      | false => exact hreplace c

/-- A new order of the layers is recorded. -/
theorem reorder_makes (ids : List String) :
    Triple (·.core = c) (reorder ids)
      (fun _ e => Makes (c.history.record c.root).1 c e.core) (fun e => Stays c e.core) := by
  refine bind_idle (Keeps.view _) fun layers => ?_
  refine recorded_makes fun c => ?_
  exact bind_made (updateLayers_makes _) fun _ => changed_makes

/-- The selection is not part of the core. -/
theorem keeps_select (id : Option String) : Keeps (·.core = c) (select id) := by
  unfold select
  extract_lets rest
  have hrest : ∀ u, Keeps (·.core = c) (rest u) := fun _ => Triple.change fun _ he => he
  cases id with
  | none => exact hrest ()
  | some id =>
      refine (Keeps.view _).bind fun found => ?_
      cases found with
      | none => exact (Keeps.fail _).bind hrest
      | some l => exact hrest ()

/-! ## Images and templates -/

/-- Putting an image in place of that of the layer being edited keeps the layer. -/
theorem swapLayer_makes (imagePath : String) (size : Size) :
    Triple (·.core = c)
      (do
        let l ← Edit.view currentLayer
        Edit.mapRoot fun root =>
          root.replaceLayerAt c.context.path (swapImage imagePath size (some (swappedState l size))))
      (fun _ e => Makes c.history c e.core) (·.core = c) := by
  refine Triple.bind (R := fun _ e => e.core = c) (Keeps.view _) fun l => ?_
  refine Triple.mapRoot (fun e root he hroot => ?_) fun e x he _ => he
  rw [core_root he]
  rw [show e.root = c.root from congrArg Core.root he] at hroot
  have hresolves := State.resolves_replaceLayerAt
    (f := swapImage imagePath size (some (swappedState l size))) (fun _ => rfl) hroot
  exact Makes.of_root hresolves fun hg => hg.of_params (State.params_replaceLayerAt hroot)

/-- Putting an image in place of the base image renames the tree along with it. -/
theorem swapBase_swaps (imagePath : String) (size : Size) (hroot : c.context.path = []) :
    Triple (·.core = c)
      (do
        Edit.change fun e => { e with imagePath, size }
        Edit.change fun e => { e with root := e.identified e.root.withoutCrop })
      (fun _ e => Swaps imagePath c.history c e.core) (·.core = c) := by
  refine Triple.bind (R := fun _ e => e.core = { c with imagePath, size })
    (Triple.change ?_) fun _ => Triple.change ?_
  · rintro e rfl
    rfl
  · intro e he
    rw [core_root he, identified_eq he, show e.root = c.root from congrArg Core.root he]
    have hstays : Stays c { c with
        imagePath, size
        root := Core.identified { c with imagePath, size } c.root.withoutCrop } :=
      ⟨rfl, fun _ => by unfold Anchored; rw [hroot]; exact State.resolves_nil _⟩
    refine ⟨hstays, fun hname => ⟨hstays, rfl, fun hg => ?_⟩⟩
    exact Grounded.of_identified (c := { c with imagePath, size }) hname hg.plain

/-- Another image in place of one is recorded at once. -/
theorem replaceImage_swaps (imagePath : String) (dimensions : Value) (target : Option String) :
    Triple (·.core = c) (replaceImage imagePath dimensions target)
      (fun _ e => Swaps imagePath (c.history.checkpoint c.root).1 c e.core)
      (fun e => Stays c e.core) := by
  refine bind_idle (keeps_check _) fun size => ?_
  extract_lets finish rest
  have hfinish : ∀ (c : Core) u, Triple (fun e => Swaps imagePath c.history c e.core) (finish u)
      (fun _ e => Swaps imagePath c.history c e.core) (fun e => Stays c e.core) :=
    fun c _ => Triple.conseq keeps_changed (fun _ => id) (fun _ _ => id) fun _ hs => hs.1
  have hswap : ∀ (c : Core) {m : Edit Unit},
      Triple (·.core = c) m (fun _ e => Swaps imagePath c.history c e.core) (·.core = c) →
      Triple (·.core = c) (m >>= finish) (fun _ e => Swaps imagePath c.history c e.core)
        (fun e => Stays c e.core) := fun c m hm =>
    Triple.bind (hm.conseq (fun _ => id) (fun _ _ => id) fun _ he => Stays.of_eq he) (hfinish c)
  have hrest : ∀ u, Triple (·.core = c) (rest u)
      (fun _ e => Swaps imagePath (c.history.checkpoint c.root).1 c e.core)
      (fun e => Stays c e.core) := by
    refine fun _ => recorded (M := Swaps imagePath) Swaps.of_history fun c => ?_
    refine Triple.bind_view fun e he => Triple.pre_mono ?_ fun e' he' => he' ▸ he
    cases target with
    | some target =>
        exact hswap c ((replaceLayer_makes target _).post_mono fun _ _ hm => hm.swaps imagePath)
    | none =>
        by_cases hroot : e.path.isEmpty
        · rw [if_pos hroot]
          rw [path_eq he, List.isEmpty_iff] at hroot
          have hbase := hswap c (swapBase_swaps imagePath size hroot)
          simpa only [bind_assoc] using hbase
        · rw [if_neg hroot, path_eq he]
          have hlayer := hswap c
            ((swapLayer_makes imagePath size).post_mono fun _ _ hm => hm.swaps imagePath)
          simpa only [bind_assoc] using hlayer
  cases target with
  | none => exact hrest ()
  | some target =>
      refine bind_idle (Keeps.view _) fun found => ?_
      cases found with
      | none => exact bind_idle (Keeps.fail _) hrest
      | some l => exact hrest ()

theorem applied_plain (t : Template) (s : State) (size : Size) : (t.applied s size).Plain := by
  unfold Template.applied
  extract_lets portable size
  clear_value size
  cases size with
  | none => exact rfl
  | some d => exact rfl

theorem importDocument_plain {es : Entries} {version : String} {s applied : State}
    {warnings : List Warning} {size : Size} {issued : Nat} {t : Template}
    (h : (importDocument es version s warnings size issued).1.outcome = some (t, applied)) :
    applied.Plain := by
  unfold importDocument at h
  extract_lets around at h
  generalize (Template.readAround around (pure s)).run issued = out at h
  obtain ⟨r, n⟩ := out
  cases r with
  | ok t' =>
      cases h
      exact applied_plain t s size
  | error f => cases f <;> cases h

/-- What a template applies is stored as it is. -/
theorem importTemplate_plain {text : String} {size : Size} {settings : Settings} {issued : Nat}
    {r : ImportResult} {t : Template} {applied : State}
    (hr : (Retouch.importTemplate text size settings issued).1 = .ok r)
    (h : r.outcome = some (t, applied)) : applied.Plain := by
  unfold Retouch.importTemplate at hr
  split at hr
  · cases hr
    cases h
  · extract_lets version found mismatch given at hr
    clear_value version found mismatch given
    split at hr
    · cases hr
    · split at hr
      extract_lets skipped at hr
      split at hr
      · cases hr
      · extract_lets warnings at hr
        split at hr
        · cases hr
          cases h
        · cases hr
          exact importDocument_plain h

/-- Reading a template changes nothing. -/
theorem readTemplate_core (text : String) :
    Triple (·.core = c) (readTemplate text)
      (fun r e => e.core = c ∧ ∃ size settings issued,
        (Retouch.importTemplate text size settings issued).1 = .ok r) (·.core = c) := by
  intro t ht
  unfold readTemplate
  dsimp only
  cases hout : Retouch.importTemplate text t.editor.size t.editor.settings t.editor.issued with
  | mk r n =>
      cases r with
      | ok r => exact ⟨ht, _, _, _, congrArg Prod.fst hout⟩
      | error f => exact ht

/-- A template in place of the tree is recorded at once, and the root is edited then; nothing
    happens if it cannot be applied. -/
theorem importTemplate_core (text : String) :
    Triple (·.core = c) (importTemplate text)
      (fun _ e => e.core = c ∨
        (e.core.context = .root ∧ e.core.history = (c.history.checkpoint c.root).1 ∧
          (c.Grounded → e.core.Grounded)))
      (fun e => e.core = c ∨ e.core.context = .root) := by
  refine Triple.bind ((readTemplate_core text).conseq (fun _ => id) (fun _ _ => id)
    fun _ he => Or.inl he) fun result => ?_
  refine Triple.of_forall fun e he => Triple.pre_mono (P := (·.core = c)) ?_ fun e' he' =>
    he' ▸ he.1
  cases hout : result.outcome with
  | none => exact Triple.pure result fun _ he => Or.inl he
  | some taken =>
      obtain ⟨template, applied⟩ := taken
      obtain ⟨size, settings, issued, hread⟩ := he.2
      have hplain := importTemplate_plain hread hout
      refine Triple.bind ((recordBy_makes History.checkpoint).conseq (fun _ he => he)
        (fun _ _ he => he) fun _ he => Or.inl he) fun _ => ?_
      refine Triple.bind (R := fun _ e => e.core =
          { c with
            context := .root
            root := c.identified applied
            history := (c.history.checkpoint c.root).1 })
        (Triple.change fun e he => ?_) fun _ => ?_
      · have hbase := identified_eq he applied
        show ({ e.core with context := .root, root := e.identified applied } : Core) = _
        rw [hbase, he]
        rfl
      · refine Triple.bind (Triple.conseq keeps_changed (fun _ he => he) (fun _ _ he => he)
          fun e he => Or.inr ?_) fun _ => Triple.pure result fun e he => Or.inr ?_
        · rw [he]
        · rw [he]
          refine ⟨rfl, rfl, fun hg => ?_⟩
          exact ⟨rfl, rfl, hg.nonempty, hplain⟩

/-! ## The history and the context -/

/-- Starting over empties the tree and the history. -/
theorem startOver_core (listening : Bool) :
    Triple (·.core = c) (startOver listening)
      (fun _ e => e.core =
        { c with
          root := c.identified .empty
          context := .root
          history := { limit := c.history.limit } })
      (fun _ => False) := by
  refine Triple.bind (R := fun _ e => e.core =
    { c with root := c.identified .empty, context := .root }) (Triple.change ?_) fun _ => ?_
  · rintro e rfl
    rfl
  refine Triple.bind (R := fun _ e => e.core =
    { c with
      root := c.identified .empty
      context := .root
      history := { limit := c.history.limit } }) (Triple.recordBy ?_) fun _ => fun _ ht => ht
  intro e he
  show { e.core with history := { limit := e.core.history.limit } } = _
  rw [he]

/-- What does not depend on the crop mode is kept. -/
theorem keeps_setVisualCrop_of {I : Editor → Prop} (enabled : Bool)
    (hI : ∀ e visualCrop, I e → I { e with visualCrop }) : Keeps I (setVisualCrop enabled) := by
  refine (Keeps.view _).bind fun e => ?_
  split
  · exact Keeps.pure _
  · refine Keeps.bind (Triple.change fun e => hI e enabled) fun _ => ?_
    extract_lets finish
    have hfinish : ∀ u, Keeps I (finish u) := fun _ => keeps_changed.bind fun _ => Keeps.pure _
    split
    · refine (Keeps.view _).bind fun s => ?_
      split
      · exact (Keeps.ask _).bind fun _ => Keeps.pure _
      · exact hfinish ()
    · exact hfinish ()

theorem keeps_setVisualCrop (enabled : Bool) : Keeps (·.core = c) (setVisualCrop enabled) :=
  keeps_setVisualCrop_of enabled fun _ _ => id

/-- Giving up what waits leaves the entries. -/
theorem keeps_destroy : Keeps (·.core = c) destroy := by
  refine Keeps.bind (Triple.recordBy fun _ he => he) fun _ => ?_
  exact (Keeps.ask _).bind fun _ => Triple.change fun _ he => he

/-- A switch of the context makes the changes in progress an entry. -/
theorem switchContext_core {e : Editor} {target : Option String} {d : Context}
    (hd : e.destination target = .ok (some d)) :
    Triple (· = e) (switchContext target)
      (fun _ e' => e'.core = { e.core with context := d, history := e.history.flush.1 })
      (fun e' => e'.core = { e.core with context := d, history := e.history.flush.1 }) := by
  refine Triple.bind (R := fun found e' => e' = e ∧ found = some d) (Triple.view ?_ ?_)
    fun found => ?_
  · rintro e' found rfl hfound
    rw [hd] at hfound
    exact ⟨rfl, (Except.ok.inj hfound).symm⟩
  · rintro e' x rfl hfound
    rw [hd] at hfound
    cases hfound
  · refine Triple.of_forall ?_
    rintro e' ⟨rfl, rfl⟩
    refine Triple.bind (R := fun _ e'' => e''.core = { e'.core with history := e'.history.flush.1 })
      (Triple.recordBy ?_) fun _ => ?_
    · rintro e'' rfl
      rfl
    refine Triple.bind (R := fun _ e'' => e''.core =
      { e'.core with context := d, history := e'.history.flush.1 }) (Triple.change ?_) fun _ =>
        keeps_changed
    intro e'' he
    show ({ e''.core with context := d } : Core) = _
    rw [he]

/-- A switch that leads nowhere, or to the context that is open, changes nothing. -/
theorem keeps_switchContext {e : Editor} (target : Option String)
    (hd : ∀ d, e.destination target ≠ .ok (some d)) : Keeps (· = e) (switchContext target) := by
  refine Triple.bind (R := fun found e' => e' = e ∧ found = none) (Triple.view ?_ ?_)
    fun found => ?_
  · rintro e' found rfl hfound
    cases found with
    | none => exact ⟨rfl, rfl⟩
    | some d => exact absurd hfound (hd d)
  · exact fun e' x he _ => he
  · refine Triple.of_forall ?_
    rintro e' ⟨rfl, rfl⟩
    exact Triple.pure () fun _ he => he

end Retouch.Editor
