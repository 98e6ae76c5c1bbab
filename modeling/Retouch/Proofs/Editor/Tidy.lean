/-
  What every operation keeps of the tree and of its history.

  The base image is named at the root of the tree and nowhere below, and the mark of the crop mode
  is not stored at the root.  The history only has trees that were recorded (`Tidy`).  Every
  operation records before it changes the tree, so it goes from an editor whose tree may be
  recorded (`Ready`) to a tidy one, also when it fails (`Sustains`).

  The mark in the settings of layers is another matter: it is stored wherever a document names it
  there.  So that part is kept only where it is `strict` and no document does.
-/
import Retouch.Proofs.Editor.Context
import Retouch.Proofs.History.Contents
import Retouch.Proofs.Template.Marks

namespace Retouch.Editor

open Edit Editor.Core

/-! ## Tidy editors -/

namespace Core

/-- Whether the tree names the base image. -/
structure Named (c : Core) : Prop where
  image : c.root.params.imagePath = some c.imagePath
  size : c.root.params.originalDimensions = some c.size

/-- Whether the tree is as it should be. -/
structure Sound (strict : Prop) (c : Core) : Prop extends Named c where
  plain : c.root.Plain
  layers : c.root.Bears (Params.Clean strict)

/-- What every operation leaves. -/
structure Tidy (strict : Prop) (T : State → Prop) (c : Core) : Prop extends Sound strict c where
  history : c.history.Consists T

/-- What every operation finds: the tree may be recorded. -/
structure Ready (strict : Prop) (T : State → Prop) (c : Core) : Prop extends Tidy strict T c where
  recordable : T c.root

/-- What is left half way of a change of the base image: the tree may name another image. -/
structure Stored (strict : Prop) (T : State → Prop) (c : Core) : Prop where
  plain : c.root.Plain
  layers : c.root.Bears (Params.Clean strict)
  history : c.history.Consists T

/-- Whether a state may be written where an editor edits. -/
structure Writable (strict : Prop) (c : Core) (s : State) : Prop where
  plain : c.context.path = [] ∨ strict → s.Plain
  layers : s.Bears (Params.Clean strict)

variable {strict : Prop} {T : State → Prop} {c : Core}

theorem Tidy.stored (h : Tidy strict T c) : Stored strict T c := ⟨h.plain, h.layers, h.history⟩

theorem Stored.tidy (h : Stored strict T c) (hnamed : Named c) : Tidy strict T c :=
  ⟨⟨hnamed, h.plain, h.layers⟩, h.history⟩

/-- Another history with the same trees. -/
theorem Tidy.of_history {history : History} (h : Tidy strict T c) (hc : history.Consists T) :
    Tidy strict T { c with history } :=
  ⟨⟨⟨h.image, h.size⟩, h.plain, h.layers⟩, hc⟩

theorem Ready.of_history {history : History} (h : Ready strict T c) (hc : history.Consists T) :
    Ready strict T { c with history } :=
  ⟨h.toTidy.of_history hc, h.recordable⟩

/-- Another place in the tree. -/
theorem Tidy.of_context (h : Tidy strict T c) (context : Context) :
    Tidy strict T { c with context } :=
  ⟨⟨⟨h.image, h.size⟩, h.plain, h.layers⟩, h.history⟩

/-- New layers below the root leave the settings at the root. -/
theorem Tidy.of_layers {root : State} (h : Tidy strict T c)
    (hparams : root.params = c.root.params) (hlayers : root.Bears (Params.Clean strict)) :
    Tidy strict T { c with root } :=
  ⟨⟨⟨hparams ▸ h.image, hparams ▸ h.size⟩,
    show root.params.visualCropEnabled = none from hparams ▸ h.plain, hlayers⟩, h.history⟩

/-- A tree for the base image in place of the tree. -/
theorem Tidy.of_identified {s : State} (hhistory : c.history.Consists T) (hplain : s.Plain)
    (hlayers : s.Bears (Params.Clean strict)) : Tidy strict T { c with root := c.identified s } :=
  ⟨⟨⟨rfl, rfl⟩, hplain, hlayers⟩, hhistory⟩

end Core

variable {α β : Type} {strict : Prop} {T : State → Prop}

/-- Whether an operation, whether or not it fails, leaves a tidy editor if the history may record
the tree that it finds. -/
def Sustains (strict : Prop) (T : State → Prop) (m : Edit α) : Prop :=
  Triple (fun e => Ready strict T e.core) m (fun _ e => Tidy strict T e.core)
    fun e => Tidy strict T e.core

/-- Whether an operation leaves the core in some respect, and what it finds has a property. -/
def Finds (I : Core → Prop) (m : Edit α) (R : α → Prop) : Prop :=
  Triple (fun e => I e.core) m (fun a e => I e.core ∧ R a) fun e => I e.core

/-! ## Rules -/

section

variable {I : Core → Prop} {m : Edit α} {f : α → Edit β} {R : α → Prop} {S : β → Prop}

theorem keeps_of_core (h : ∀ c, Keeps (·.core = c) m) : Keeps (fun e => I e.core) m :=
  Triple.of_forall fun e he => (h e.core).conseq (fun _ heq => heq ▸ rfl)
    (fun _ _ heq => heq ▸ he) fun _ heq => heq ▸ he

theorem Finds.pure {a : α} (h : R a) : Finds I (Pure.pure a) R :=
  Triple.pure a fun _ he => ⟨he, h⟩

theorem Finds.bind (hm : Finds I m R) (hf : ∀ a, R a → Finds I (f a) S) : Finds I (m >>= f) S :=
  Triple.bind hm fun a => Triple.of_fact (hf a)

theorem Finds.view {g : Editor → Except Failure α}
    (h : ∀ e a, I e.core → g e = .ok a → R a) : Finds I (Edit.view g) R :=
  Triple.view (fun e a he ha => ⟨he, h e a he ha⟩) fun _ _ he _ => he

theorem Finds.check {k : Check α} (hk : k.Accepts R) : Finds I (Edit.check k) R :=
  Triple.check (fun _ _ _ he hrun => ⟨he, hk.of_run hrun⟩) fun _ _ he => he

theorem Sustains.bind_of_keeps (hm : Keeps (fun e => Ready strict T e.core) m)
    (hf : ∀ a, Sustains strict T (f a)) : Sustains strict T (m >>= f) :=
  Triple.bind (hm.conseq (fun _ => id) (fun _ _ => id) fun _ he => he.toTidy) hf

theorem Sustains.bind_of_finds (hm : Finds (Ready strict T) m R)
    (hf : ∀ a, R a → Sustains strict T (f a)) : Sustains strict T (m >>= f) :=
  Triple.bind (hm.conseq (fun _ => id) (fun _ _ => id) fun _ he => he.toTidy)
    fun a => Triple.of_fact (hf a)

theorem Sustains.of_keeps (hm : Keeps (fun e => Tidy strict T e.core) m) : Sustains strict T m :=
  hm.pre_mono fun _ he => he.toTidy

end

/-! ## Recording -/

section

variable (hT : ∀ s, T s → s.Plain ∧ s.Bears (Params.Clean strict))

include hT

theorem ready_checkpoint :
    Keeps (fun e => Ready strict T e.core) (recordBy History.checkpoint) :=
  Triple.recordBy fun _ he =>
    he.of_history (he.history.checkpoint (fun s hs => (hT s hs).1) he.recordable)

end

theorem ready_record : Keeps (fun e => Ready strict T e.core) (recordBy History.record) :=
  Triple.recordBy fun _ he => he.of_history (he.history.record he.recordable)

/-! ## Looking at the tree -/

/-- The layers of what is edited are among those of the tree. -/
theorem bears_of_current {P : Params → Prop} {e : Editor} {s : State} (hempty : P {})
    (h : e.root.Bears P) (hs : e.current = .ok s) : s.Bears P :=
  (h.stateAt? hempty (stateAt?_of_current hs)).2

section

variable {I : Core → Prop}

theorem current_writable (hI : ∀ c, I c → Tidy strict T c) :
    Triple (fun e => I e.core) (Edit.view current)
      (fun s e => I e.core ∧ Writable strict e.core s) (fun e => I e.core) := by
  refine Triple.view (fun e s he hs => ⟨he, ?_⟩) fun _ _ he _ => he
  have htidy := hI e.core he
  obtain ⟨hparams, hlayers⟩ := htidy.layers.stateAt? Params.clean_empty (stateAt?_of_current hs)
  refine ⟨fun hplain => ?_, hlayers⟩
  -- The tree itself has no mark, whatever documents say; a layer only where that is strict.
  by_cases hpath : e.path = []
  · rw [current_of_nil rfl hpath hs]
    exact htidy.plain
  · exact (hparams hpath).mark (hplain.resolve_left hpath)

theorem current_clean (hI : ∀ c, I c → Tidy strict T c) :
    Finds I (Edit.view current) fun s => s.Bears (Params.Clean strict) :=
  (current_writable hI).post_mono fun _ _ he => ⟨he.1, he.2.layers⟩

theorem contextLayer_clean (hI : ∀ c, I c → Tidy strict T c) (id : String) :
    Finds I (Edit.view (·.contextLayer? id)) fun found =>
      ∀ l ∈ found, l.Bears (Params.Clean strict) := by
  refine Finds.view fun e found he hfound l hl => ?_
  obtain ⟨s, hs, heq⟩ := of_bind_eq_ok hfound
  cases heq
  exact (bears_of_current Params.clean_empty (hI e.core he).layers hs).child? hl

theorem currentLayer_clean (hI : ∀ c, I c → Tidy strict T c) :
    Finds I (Edit.view currentLayer) fun l => l.Bears (Params.Clean strict) := by
  refine Finds.view fun e l he hl => ?_
  unfold currentLayer at hl
  split at hl
  · rename_i m hm
    cases hl
    exact (hI e.core he).layers.layerAt? Params.clean_empty hm
  · cases hl

end

/-! ## Changing the tree -/

/-- A state is written where it may be; at the root the tree names the base image afterwards. -/
theorem tidy_writeCurrent (s : State) :
    Triple
      (fun e => Stored strict T e.core ∧ (e.path ≠ [] → Named e.core) ∧ Writable strict e.core s)
      (writeCurrent s) (fun _ e => Tidy strict T e.core) (fun e => Tidy strict T e.core) := by
  refine Triple.bind_view fun e he => Triple.mapRoot ?_ ?_
  · rintro e' root rfl hroot
    obtain ⟨hstored, hnamed, hs⟩ := he
    by_cases hpath : e'.path.isEmpty
    · rw [if_pos hpath] at hroot
      obtain rfl := Except.ok.inj hroot
      exact Tidy.of_identified hstored.history
        (hs.plain (.inl (List.isEmpty_iff.mp hpath))) hs.layers
    · rw [if_neg hpath] at hroot
      have htidy := hstored.tidy (hnamed (mt List.isEmpty_iff.mpr hpath))
      refine htidy.of_layers (State.params_setTransformsAt hroot) ?_
      -- A layer gets the state without its image; nothing takes the mark off it.
      exact htidy.layers.setTransformsAt Params.clean_empty hroot
        ⟨rfl, rfl, fun hstrict => hs.plain (.inr hstrict)⟩ hs.layers
  · rintro e' x rfl hroot
    obtain ⟨hstored, hnamed, -⟩ := he
    by_cases hpath : e'.path.isEmpty
    · rw [if_pos hpath] at hroot
      cases hroot
    · exact hstored.tidy (hnamed (mt List.isEmpty_iff.mpr hpath))

theorem tidy_updateLayers {f : List Layer → List Layer}
    (hf : ∀ ls, (∀ l ∈ ls, l.Bears (Params.Clean strict)) →
      ∀ l ∈ f ls, l.Bears (Params.Clean strict)) :
    Keeps (fun e => Tidy strict T e.core) (updateLayers f) := by
  refine Triple.bind_view fun e he => Triple.mapRoot ?_ fun e' x heq _ => heq ▸ he
  rintro e' root rfl hroot
  refine he.of_layers (State.updateLayersAt_ok hroot).1 ?_
  refine he.layers.updateLayersAt Params.clean_empty hroot fun ls out hls hout => ?_
  cases hout
  exact hf ls hls

/-- A clean layer is put on top of the others. -/
theorem tidy_addLayer {l : Layer} (hl : l.Bears (Params.Clean strict)) :
    Keeps (fun e => Tidy strict T e.core) (updateLayers (· ++ [l])) :=
  tidy_updateLayers fun _ hls =>
    List.forall_mem_append.mpr ⟨hls, List.forall_mem_singleton.mpr hl⟩

/-- Another layer is put in place of one. -/
theorem tidy_replaceLayerAt {path : List String} {f : Layer → Layer}
    (hf : ∀ l, l.Bears (Params.Clean strict) → (f l).Bears (Params.Clean strict)) :
    Keeps (fun e => Tidy strict T e.core) (Edit.mapRoot fun root => root.replaceLayerAt path f) :=
  Triple.mapRoot (fun _ _ he hroot => he.of_layers (State.params_replaceLayerAt hroot)
    (he.layers.replaceLayerAt Params.clean_empty hroot hf)) fun _ _ he _ => he

theorem tidy_replaceLayer (id : String) {f : Layer → Layer}
    (hf : ∀ l, l.Bears (Params.Clean strict) → (f l).Bears (Params.Clean strict)) :
    Keeps (fun e => Tidy strict T e.core) (replaceLayer id f) :=
  Triple.bind_view fun _ he => (tidy_replaceLayerAt hf).pre_mono fun _ heq => heq ▸ he

/-! ## Settings -/

/-- Changes of settings that neither set the mark nor mark a layer. -/
structure Harmless (strict : Prop) (cs : Changes) : Prop where
  mark : ∀ c ∈ cs, c.1 ≠ .visualCropEnabled
  layers : strict → ¬ cs.MarksLayers

theorem Harmless.merged {c : Core} {s t : State} {cs : Changes} {n : Nat}
    (hcs : Harmless strict cs) (hs : Writable strict c s) (h : ((s.merged cs).run n).1 = .ok t) :
    Writable strict c t :=
  ⟨fun hplain => (State.plain_of_merged (hs.plain hplain) hcs.mark).of_run h,
    (State.clean_of_merged hs.layers hcs.layers).of_run h⟩

/-- Merging changes into what is edited. -/
theorem tidy_merge {cs : Changes} (hcs : Harmless strict cs) :
    Keeps (fun e => Tidy strict T e.core)
      (do
        let s ← Edit.view current
        let merged ← Edit.check (s.merged cs)
        writeCurrent merged
        changed) := by
  refine Triple.bind (current_writable fun _ h => h) fun s => ?_
  refine Triple.bind (R := fun t e => Tidy strict T e.core ∧ Writable strict e.core t)
    (Triple.check (fun e t n he hrun => ⟨he.1, hcs.merged he.2 hrun⟩) fun e n he => he.1)
    fun merged => ?_
  refine Triple.bind ((tidy_writeCurrent merged).pre_mono fun e he => ?_) fun _ => keeps_changed
  exact ⟨he.1.stored, fun _ => he.1.toNamed, he.2⟩

/-- Whether updates of settings mark a layer that they give. -/
def Updates.MarksLayers (u : Updates) : Prop :=
  ∃ es, u.value.entries? = .ok es ∧ Entries.MarksLayers es

theorem accepts_changes {u : Updates} (h : strict → ¬ u.MarksLayers) :
    u.changes.Accepts fun cs => strict → ¬ cs.MarksLayers := by
  have hes : strict → ∀ es, u.value.entries? = .ok es → ¬ Entries.MarksLayers es :=
    fun hstrict es hes hmarks => h hstrict ⟨es, hes, hmarks⟩
  unfold Updates.changes
  split
  · refine (State.clean_of_readGiven hes).bind fun r => .pure fun hr hstrict => ?_
    exact Changes.not_marksLayers_ofState (hr.mono fun p hp => hp.mark hstrict)
  · exact Check.accepts_lift fun es hentries => .pure fun hstrict hmarks =>
      hes hstrict es hentries (Changes.marksLayers_of_ofEntries hmarks)

theorem harmless_completed {cs out : Changes} {b : Bool} {ratio : Except Failure Float}
    (hcs : strict → ¬ cs.MarksLayers)
    (h : (if b then do (cs.drop .visualCropEnabled |>.drop .imagePath
      |>.drop .originalDimensions).keepRatio (← ratio)
      else .ok (cs.drop .visualCropEnabled |>.drop .imagePath |>.drop .originalDimensions)) =
        .ok out) : Harmless strict out := by
  refine ⟨ne_visualCropEnabled_of_completed h, fun hstrict hmarks => ?_⟩
  obtain ⟨vs, l, hlayers, hl⟩ := hmarks
  rcases mem_completed h hlayers with heq | heq | ⟨-, hmem⟩
  · cases heq
  · cases heq
  · exact hcs hstrict ⟨vs, l, hmem, hl⟩

theorem sustains_update {u : Updates} (recorded keepRatio : Bool)
    (h : strict → ¬ u.MarksLayers) : Sustains strict T (update u recorded keepRatio) := by
  refine Sustains.bind_of_finds (Finds.check (accepts_changes h)) fun changes hchanges => ?_
  extract_lets kept noted
  -- The mark and the image are dropped from the changes before the tree is recorded.
  have hnoted : ∀ u, Sustains strict T (noted u) := by
    intro u
    refine Sustains.bind_of_finds (R := Harmless strict)
      (Finds.view fun _ _ _ hcs => harmless_completed hchanges hcs) fun completed hcompleted => ?_
    have hmerge := Sustains.of_keeps (tidy_merge (T := T) hcompleted)
    cases recorded with
    | true => exact Sustains.bind_of_keeps ready_record fun _ => hmerge
    | false => exact hmerge
  split
  · exact Sustains.bind_of_keeps (Triple.change fun _ he => he) hnoted
  · exact hnoted ()

/-- The layers of the state that updates give are clean. -/
theorem accepts_state {u : Updates} (h : strict → ¬ u.MarksLayers) :
    u.state.Accepts fun s => s.Bears (Params.Clean strict) := by
  have hentries : ∀ es, u.value.entries? = .ok es →
      (State.ofEntries es).Accepts fun s => s.Bears (Params.Clean strict) := fun es hes =>
    State.clean_of_ofEntries fun hstrict hmarks => h hstrict ⟨es, hes, hmarks⟩
  unfold Updates.state
  split
  · rename_i es hvalue
    exact hentries es (by rw [hvalue]; rfl)
  · exact Check.accepts_lift hentries
  · exact .throw

theorem sustains_restore {u : Updates} (h : strict → ¬ u.MarksLayers) :
    Sustains strict T (restore u) := by
  refine Sustains.bind_of_finds (Finds.check (accepts_state h)) fun s hs => ?_
  extract_lets names rest
  -- At the root the base image changes first, and the tree names it when the state is written.
  have hrest : ∀ u, Triple (fun e => Stored strict T e.core ∧ (e.path ≠ [] → Named e.core))
      (rest u) (fun _ e => Tidy strict T e.core) (fun e => Tidy strict T e.core) := by
    intro u
    refine Triple.bind (R := fun _ e => Stored strict T e.core ∧ (e.path ≠ [] → Named e.core))
      (Triple.change fun _ he => he) fun _ => ?_
    refine Triple.bind ((tidy_writeCurrent s.withoutVisualCrop).pre_mono fun e he => ?_)
      fun _ => keeps_changed
    exact ⟨he.1, he.2, fun _ => s.plain_withoutVisualCrop, hs⟩
  clear_value names
  cases names with
  | some named =>
      refine Triple.bind (Triple.change fun e he => ?_) hrest
      split
      · rename_i hpath
        exact ⟨⟨he.plain, he.layers, he.history⟩,
          fun hne => absurd (List.isEmpty_iff.mp hpath) hne⟩
      · exact ⟨he.stored, fun _ => he.toNamed⟩
  | none => exact (hrest ()).pre_mono fun e he => ⟨he.stored, fun _ => he.toNamed⟩

section

variable (hT : ∀ s, T s → s.Plain ∧ s.Bears (Params.Clean strict))

include hT

theorem sustains_resetParams : Sustains strict T resetParams := by
  refine Sustains.bind_of_keeps (ready_checkpoint hT) fun _ => Sustains.of_keeps ?_
  refine Triple.bind (current_clean fun _ h => h) fun s => Triple.of_fact fun hs => ?_
  refine Keeps.bind (Triple.change fun _ he => he) fun _ => ?_
  refine Triple.bind ((tidy_writeCurrent ⟨{}, s.layers⟩).pre_mono fun e he => ?_)
    fun _ => keeps_changed
  exact ⟨he.stored, fun _ => he.toNamed, fun _ => rfl, hs⟩

/-! ## Layers -/

theorem sustains_addLayer {document : Value} (h : strict → ¬ document.MarksLayer) :
    Sustains strict T (addLayer document) := by
  refine Sustains.bind_of_finds (Finds.check (Layer.clean_of_check h)) fun l hl => ?_
  refine Sustains.bind_of_keeps (ready_checkpoint hT) fun _ => Sustains.of_keeps ?_
  exact (tidy_addLayer hl).bind fun _ => keeps_changed.bind fun _ => Keeps.pure l

theorem sustains_removeLayer (id : String) : Sustains strict T (removeLayer id) := by
  refine Sustains.bind_of_keeps (Keeps.view _) fun found => ?_
  cases found with
  | none => exact Sustains.of_keeps (Keeps.pure ())
  | some l =>
      refine Sustains.bind_of_keeps (ready_checkpoint hT) fun _ => Sustains.of_keeps ?_
      refine Keeps.bind (tidy_updateLayers fun ls hls k hk => hls k (List.mem_filter.mp hk).1)
        fun _ => Keeps.bind (Triple.change fun e he => ?_) fun _ => keeps_changed
      split
      · exact he
      · exact he

omit hT in
theorem bears_copyOf {l copy : Layer} {id : String} {offset : Int}
    (hl : l.Bears (Params.Clean strict)) (h : copyOf l id offset = .ok copy) :
    copy.Bears (Params.Clean strict) := by
  obtain ⟨x, -, h⟩ := of_bind_eq_ok h
  obtain ⟨y, -, h⟩ := of_bind_eq_ok h
  cases h
  exact hl.of_transforms rfl

theorem sustains_duplicateLayer (id : String) : Sustains strict T (duplicateLayer id) := by
  refine Sustains.bind_of_finds (contextLayer_clean (fun _ h => h.toTidy) id) fun found hfound => ?_
  cases found with
  | none => exact Sustains.of_keeps (Keeps.pure none)
  | some l =>
      refine Sustains.bind_of_keeps (Keeps.check _ fun _ _ he => he) fun fresh => ?_
      refine Sustains.bind_of_finds (Finds.view fun e copy _ hcopy =>
        bears_copyOf (hfound l rfl) hcopy) fun copy hcopy => ?_
      refine Sustains.bind_of_keeps (ready_checkpoint hT) fun _ => Sustains.of_keeps ?_
      exact (tidy_addLayer hcopy).bind fun _ => keeps_changed.bind fun _ => Keeps.pure (some copy)

end

/-- Whether updates of a layer mark it or a layer on top of it. -/
def LayerUpdates.Marks (u : LayerUpdates) : Prop :=
  ∃ es v ts, u.value.entries? = .ok es ∧ ("transforms", v) ∈ es ∧ v.entries? = .ok ts ∧
    Entries.Marks ts

/-- Whether a state that was validated beforehand fits a layer. -/
def PresetFits (strict : Prop) (preset : Option (List Field × State)) : Prop :=
  ∀ r ∈ preset, r.2.Fits strict ∧ (strict → .visualCropEnabled ∉ r.1)

theorem accepts_presetState {u : LayerUpdates} (h : strict → ¬ u.Marks) :
    u.presetState.Accepts (PresetFits strict) := by
  have hnone : PresetFits strict none := fun _ hr => nomatch hr
  unfold LayerUpdates.presetState
  split
  · refine Check.accepts_lift fun es hes => ?_
    split
    · exact .pure hnone
    · exact .pure hnone
    · rename_i v _ hv
      have hgiven := State.fits_of_readGiven (v := v) fun (hstrict : strict) ts hts hmarks =>
        h hstrict ⟨es, v, ts, hes, Entries.mem_of_lookup hv, hts, hmarks⟩
      refine hgiven.bind fun r => .pure ?_
      rintro hr _ ⟨⟩
      exact hr
  · exact .pure hnone

/-- Settings as a layer gets them. -/
def SettingsFit (strict : Prop) (s : State) : Prop :=
  s.params.Clean strict ∧ s.Bears (Params.Clean strict)

theorem settingsFit_withoutIdentity {s : State} (h : s.Fits strict) :
    SettingsFit strict s.withoutIdentity :=
  ⟨h.clean, h.1⟩

/-- Changes that neither set the mark nor mark a layer come of entries that do neither. -/
theorem not_marks_of_ofEntries {es : Entries} (h : ¬ Entries.Marks es) :
    (∀ c ∈ Changes.ofEntries es, c.1 ≠ .visualCropEnabled) ∧
      ¬ (Changes.ofEntries es).MarksLayers := by
  refine ⟨fun c hc hmark => ?_, fun hmarks => h (.inr (Changes.marksLayers_of_ofEntries hmarks))⟩
  obtain ⟨e, he, hkey, -⟩ := Changes.mem_ofEntries hc
  exact h (.inl ⟨e, he, hmark ▸ hkey⟩)

section

variable {I : Core → Prop} {l : Layer} {preset : Option (List Field × State)}

/-- The settings that a layer gets fit, if its own do and those that are given. -/
theorem finds_newTransforms {v : Value} (replace : Bool) (hl : l.Bears (Params.Clean strict))
    (hpreset : PresetFits strict preset)
    (h : strict → ∀ ts, v.entries? = .ok ts → ¬ Entries.Marks ts) :
    Finds I (newTransforms l v preset replace) (SettingsFit strict) := by
  have hstrip : ∀ {k : Check State}, k.Accepts (State.Fits strict) →
      Finds I (do return (← Edit.check k).withoutIdentity) (SettingsFit strict) := fun hk =>
    (Finds.check hk).bind fun s hs => Finds.pure (settingsFit_withoutIdentity hs)
  unfold newTransforms
  split
  · rename_i s hs
    extract_lets rest
    have hown : s.Fits strict := by
      obtain ⟨hparams, hlayers⟩ := Layer.bears_iff.mp hl s hs
      exact ⟨hlayers, hparams.mark⟩
    have hrest : ∀ cs, (strict → (∀ c ∈ cs, c.1 ≠ .visualCropEnabled) ∧ ¬ cs.MarksLayers) →
        Finds I (rest cs) (SettingsFit strict) := fun cs hcs =>
      hstrip (State.fits_of_merged hown hcs)
    cases preset with
    | some given =>
        obtain ⟨fields, t⟩ := given
        obtain ⟨hfits, hfields⟩ := hpreset _ rfl
        -- Only the fields that were given are merged, and the mark is not among them.
        refine hrest _ fun hstrict => ⟨fun c hc heq => ?_, ?_⟩
        · obtain ⟨f, hf, rfl⟩ := List.mem_map.mp hc
          obtain rfl : f = .visualCropEnabled := heq
          exact hfields hstrict hf
        · exact Changes.not_marksLayers_ofState (hfits.1.mono fun p hp => hp.mark hstrict)
    | none =>
        refine Finds.bind (Finds.view fun e cs _ hcs => ?_) hrest
        intro hstrict
        cases v with
        | object es =>
            cases hcs
            exact not_marks_of_ofEntries (h hstrict es rfl)
        | _ => cases hcs
  · cases preset with
    | some given => exact Finds.pure (settingsFit_withoutIdentity (hpreset given rfl).1)
    | none =>
        refine hstrip ?_
        cases v with
        | object es => exact State.fits_of_ofEntries fun hstrict => h hstrict es rfl
        | _ => exact .throw

/-- A layer with updates is clean, if it was and the updates do not mark it. -/
theorem finds_updatedLayer {u : LayerUpdates} (hl : l.Bears (Params.Clean strict))
    (hpreset : PresetFits strict preset) (h : strict → ¬ u.Marks) :
    Finds I (updatedLayer l u preset) fun m => m.Bears (Params.Clean strict) := by
  refine Finds.bind (R := fun es => u.value.entries? = .ok es)
    (Finds.view fun e es _ hes => hes) fun es hes => ?_
  extract_lets es' props rest
  -- Erasing the id only takes away, so settings that are found were given.
  have hgiven : ∀ v, ("transforms", v) ∈ es' → ("transforms", v) ∈ es := fun v hv =>
    Entries.mem_of_mem_erase hv
  have hrest : ∀ m : Layer, m.Bears (Params.Clean strict) →
      Finds I (rest m) fun m => m.Bears (Params.Clean strict) := by
    intro m hm
    simp only [rest]
    split
    · exact Finds.pure hm
    · exact Finds.pure (Layer.bears_iff.mpr fun _ hs => nomatch hs)
    · rename_i v _ hv
      have hmem := hgiven v (Entries.mem_of_lookup hv)
      refine (finds_newTransforms u.replace hl hpreset fun hstrict ts hts hmarks =>
        h hstrict ⟨es, v, ts, hes, hmem, hts, hmarks⟩).bind fun s hs => Finds.pure ?_
      exact Layer.bears_iff.mpr fun t ht => Option.some.inj ht ▸ hs
  split
  · exact (Finds.pure hl).bind hrest
  · refine Finds.bind (Finds.check (Layer.clean_of_merged hl fun hstrict hmarks => ?_)) hrest
    obtain ⟨ts, hts, hmarks⟩ := Value.marksLayer_object.mp hmarks
    exact h hstrict ⟨es, _, ts, hes, hgiven _ (Entries.mem_of_mem_erase hts), rfl, hmarks⟩

end

theorem sustains_updateLayer {u : LayerUpdates} (id : String) (recorded : Bool)
    (h : strict → ¬ u.Marks) : Sustains strict T (updateLayer id u recorded) := by
  refine Sustains.bind_of_finds (Finds.check (accepts_presetState h)) fun preset hpreset => ?_
  refine Sustains.bind_of_finds (contextLayer_clean (fun _ h => h.toTidy) id) fun found hfound => ?_
  cases found with
  | none => exact Sustains.of_keeps (Keeps.pure ())
  | some l =>
      refine Sustains.bind_of_finds (finds_updatedLayer (hfound l rfl) hpreset h)
        fun updated hupdated => ?_
      have hreplace : Sustains strict T
          (do
            replaceLayer id fun _ => updated
            changed) :=
        Sustains.of_keeps ((tidy_replaceLayer id fun _ _ => hupdated).bind fun _ => keeps_changed)
      cases recorded with
      | true => exact Sustains.bind_of_keeps ready_record fun _ => hreplace
      | false => exact hreplace

/-- A new order has only layers that were there. -/
theorem mem_of_reordered {layers out : List Layer} {ids : List String}
    (h : reordered layers ids = .ok out) {l : Layer} (hl : l ∈ out) : l ∈ layers := by
  unfold reordered at h
  split at h
  · cases h
    obtain ⟨id, -, hfound⟩ := List.mem_filterMap.mp hl
    exact List.mem_reverse.mp (List.mem_of_find?_eq_some hfound)
  · cases h

theorem sustains_reorder (ids : List String) : Sustains strict T (reorder ids) := by
  refine Sustains.bind_of_finds (R := fun layers => ∀ l ∈ layers, l.Bears (Params.Clean strict))
    (Finds.view fun e layers he hlayers l hl => ?_) fun layers hlayers => ?_
  · obtain ⟨s, hs, hout⟩ := of_bind_eq_ok hlayers
    exact bears_of_current Params.clean_empty he.layers hs l (mem_of_reordered hout hl)
  · refine Sustains.bind_of_keeps ready_record fun _ => Sustains.of_keeps ?_
    exact (tidy_updateLayers fun _ _ => hlayers).bind fun _ => keeps_changed

/-! ## Images and templates -/

/-- Another image for a layer leaves its settings, except for the crop. -/
theorem bears_swapImage {imagePath : String} {size : Size} {l : Layer}
    (hl : l.Bears (Params.Clean strict)) :
    (swapImage imagePath size (l.transforms.map State.withoutCrop) l).Bears
      (Params.Clean strict) := by
  refine Layer.bears_iff.mpr fun t ht => ?_
  obtain ⟨s, hs, rfl⟩ := Option.map_eq_some_iff.mp ht
  obtain ⟨hparams, hlayers⟩ := Layer.bears_iff.mp hl s hs
  exact ⟨⟨hparams.image, hparams.size, hparams.mark⟩, hlayers⟩

/-- A wanted size that follows the image does not matter to that. -/
theorem settingsFit_swappedState {l : Layer} {size : Size} (hl : l.Bears (Params.Clean strict)) :
    SettingsFit strict (swappedState l size) := by
  obtain ⟨hparams, hlayers⟩ := hl.state Params.clean_empty
  unfold swappedState
  extract_lets s old unset
  split
  · exact ⟨⟨hparams.image, hparams.size, hparams.mark⟩, hlayers⟩
  · exact ⟨⟨hparams.image, hparams.size, hparams.mark⟩, hlayers⟩

theorem tidy_swapLayer (imagePath : String) (size : Size) (path : List String) :
    Keeps (fun e => Tidy strict T e.core)
      (do
        let l ← Edit.view currentLayer
        Edit.mapRoot fun root =>
          root.replaceLayerAt path (swapImage imagePath size (some (swappedState l size)))) := by
  refine Triple.bind (currentLayer_clean fun _ h => h) fun l => Triple.of_fact fun hl => ?_
  refine tidy_replaceLayerAt fun _ _ => Layer.bears_iff.mpr fun t ht => ?_
  exact Option.some.inj ht ▸ settingsFit_swappedState hl

/-- The tree is renamed along with the base image. -/
theorem tidy_swapBase (imagePath : String) (size : Size) :
    Keeps (fun e => Tidy strict T e.core)
      (do
        Edit.change fun e => { e with imagePath, size }
        Edit.change fun e => { e with root := e.identified e.root.withoutCrop }) := by
  refine Triple.bind (R := fun _ e => Stored strict T e.core)
    (Triple.change fun e he => ⟨he.plain, he.layers, he.history⟩) fun _ => ?_
  exact Triple.change fun e he => Tidy.of_identified (s := e.root.withoutCrop) he.history
    he.plain he.layers

section

variable (hT : ∀ s, T s → s.Plain ∧ s.Bears (Params.Clean strict))

include hT

theorem sustains_replaceImage (imagePath : String) (dimensions : Value) (target : Option String) :
    Sustains strict T (replaceImage imagePath dimensions target) := by
  refine Sustains.bind_of_keeps (Keeps.check _ fun _ _ he => he) fun size => ?_
  extract_lets finish rest
  have hswap : ∀ {m : Edit Unit}, Keeps (fun e => Tidy strict T e.core) m →
      Keeps (fun e => Tidy strict T e.core) (m >>= finish) :=
    fun hm => hm.bind fun _ => keeps_changed
  have hrest : ∀ u, Sustains strict T (rest u) := by
    intro u
    refine Sustains.bind_of_keeps (ready_checkpoint hT) fun _ => Sustains.of_keeps ?_
    refine Triple.bind_view fun e he => Triple.pre_mono ?_ fun e' he' => he' ▸ he
    cases target with
    | some target => exact hswap (tidy_replaceLayer target fun _ => bears_swapImage)
    | none =>
        by_cases hroot : e.path.isEmpty
        · rw [if_pos hroot]
          simpa only [Keeps, bind_assoc] using hswap (tidy_swapBase imagePath size)
        · rw [if_neg hroot]
          simpa only [Keeps, bind_assoc] using hswap (tidy_swapLayer imagePath size e.path)
  cases target with
  | none => exact hrest ()
  | some target =>
      refine Sustains.bind_of_keeps (Keeps.view _) fun found => ?_
      cases found with
      | none => exact Sustains.bind_of_keeps (Keeps.fail _) hrest
      | some l => exact hrest ()

theorem sustains_importTemplate {text : String} (h : strict → ¬ TemplateMarksLayers text) :
    Sustains strict T (importTemplate text) := by
  refine Sustains.bind_of_finds
    (R := fun r => ∃ size settings issued,
      (Retouch.importTemplate text size settings issued).1 = .ok r)
    (Triple.of_forall fun e he => (readTemplate_core text).conseq (fun _ heq => heq ▸ rfl)
      (fun _ _ hr => ⟨hr.1 ▸ he, hr.2⟩) fun _ heq => heq ▸ he)
    fun result hresult => ?_
  obtain ⟨size, settings, issued, hread⟩ := hresult
  cases hout : result.outcome with
  | none => exact Sustains.of_keeps (Keeps.pure result)
  | some taken =>
      obtain ⟨template, applied⟩ := taken
      refine Sustains.bind_of_keeps (ready_checkpoint hT) fun _ => Sustains.of_keeps ?_
      refine Keeps.bind (Triple.change fun e he => ?_) fun _ =>
        keeps_changed.bind fun _ => Keeps.pure result
      have htidy : Tidy strict T { e.core with root := e.core.identified applied } :=
        Tidy.of_identified he.history (importTemplate_plain hread hout)
          (clean_of_importTemplate h hread hout)
      exact htidy.of_context .root

/-! ## The history and the context -/

/-- A tree of the history becomes one for the base image that it brings back. -/
theorem tidy_withTree {e : Editor} {tree : State} (hhistory : e.history.Consists T)
    (htree : T tree) : Tidy strict T (withTree e tree).core := by
  obtain ⟨hplain, hlayers⟩ := hT tree htree
  unfold withTree
  extract_lets base named path
  have hkept : base.history.Consists T := by
    simp only [base]
    split
    · split <;> exact hhistory
    · exact hhistory
  have htidy : Tidy strict T named.core :=
    Tidy.of_identified (c := base.core) hkept hplain hlayers
  split
  · exact htidy
  · exact htidy.of_context _

/-- Going back or forward brings back a tree of the history. -/
theorem sustains_travel {f : History → State → Option State × History × List History.Effect}
    (hf : ∀ h s, h.Consists T → T s →
      (∀ t ∈ (f h s).1, T t) ∧ (f h s).2.1.Consists T) : Sustains strict T (travel f) := by
  refine Triple.of_forall fun e he => (travel_core f e).conseq (fun _ => id) (fun b e' hb => ?_)
    fun _ => False.elim
  obtain ⟨hfound, hhistory⟩ := hf e.history e.root he.history he.recordable
  cases htree : (f e.history e.root).1 with
  | none =>
      rw [htree] at hb
      rw [hb.2]
      exact he.toTidy.of_history hhistory
  | some tree =>
      rw [htree] at hb
      rw [hb.2]
      exact tidy_withTree hT hhistory (hfound tree htree)

theorem sustains_switchContext (target : Option String) :
    Sustains strict T (switchContext target) := by
  refine Sustains.bind_of_keeps (Keeps.view _) fun found => ?_
  cases found with
  | none => exact Sustains.of_keeps (Keeps.pure ())
  | some context =>
      refine Sustains.bind_of_keeps
        (Triple.recordBy fun e he => he.of_history (he.history.flush fun s hs => (hT s hs).1))
        fun _ => Sustains.of_keeps ?_
      exact Keeps.bind (Triple.change fun e he => he.of_context context) fun _ => keeps_changed

end

/-- Starting over leaves nothing to be recorded. -/
theorem sustains_startOver (listening : Bool) : Sustains strict T (startOver listening) := by
  refine Triple.of_forall fun e _ => (startOver_core listening (c := e.core)).conseq
    (fun _ heq => heq ▸ rfl) (fun _ e' hcore => ?_) fun _ => False.elim
  have htidy : Tidy strict T
      { e.core with
        root := e.core.identified .empty
        history := { limit := e.history.limit } } :=
    Tidy.of_identified (c := { e.core with history := { limit := e.history.limit } })
      (History.Consists.empty _) rfl State.bears_empty
  rw [hcore]
  exact htidy.of_context .root

end Retouch.Editor
