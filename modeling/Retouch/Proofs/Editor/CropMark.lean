/-
  Where the mark of the crop mode goes.

  The mark is taken off at the root of whatever is kept: the trees of the history, templates, and
  fragments for sharing.  Layers are kept as they are, with the mark if they have it.  They only
  have it if a document names it: without such documents nothing that is kept has the mark at any
  depth (`kept_unmarked`).
-/
import Retouch.Fragment
import Retouch.Proofs.Editor.Identity

namespace Retouch

variable {strict : Prop}

/-! ## States and entries without the mark -/

/-- Whether a state has no mark at its root, nor at a layer where that is `strict`. -/
structure State.Unmarked (strict : Prop) (s : State) : Prop where
  root : s.Plain
  layers : strict → s.Bears (·.visualCropEnabled = none)

/-- Whether entries of a state do not name the mark for its root, nor for a layer where that is
`strict`. -/
structure Entries.Unmarked (strict : Prop) (es : Entries) : Prop where
  root : ¬ es.Names .visualCropEnabled
  layers : strict → ¬ es.MarksLayers

/-! ## Templates -/

theorem Template.layers_ofState (s : State) (name : Option String) (mode : SizeMode)
    (description : Option String) (size : Option Size) (settings : Settings) :
    (ofState s name mode description size settings).transformations.layers = s.layers := by
  cases mode <;> rfl

theorem Template.plain_ofState (s : State) (name : Option String) (mode : SizeMode)
    (description : Option String) (size : Option Size) (settings : Settings) :
    (ofState s name mode description size settings).transformations.Plain := by
  cases mode <;> rfl

/-- The template of a tree has the layers of the tree, and no mark at its root. -/
theorem Editor.of_exportTemplate {e : Editor} {name : Option String} {mode : String}
    {description : Option String} {t : Template}
    (h : e.exportTemplate name mode description = .ok t) :
    t.transformations.Plain ∧ t.transformations.layers = e.root.layers := by
  unfold exportTemplate at h
  split at h
  · cases h
  · extract_lets finish at h
    have hfinish : ∀ size, finish size = .ok t →
        t.transformations.Plain ∧ t.transformations.layers = e.root.layers := by
      intro size hsize
      cases hsize
      exact ⟨Template.plain_ofState .., Template.layers_ofState ..⟩
    split at h
    · obtain ⟨size, -, h⟩ := of_bind_eq_ok h
      exact hfinish _ h
    · exact hfinish _ h

/-! ## Fragments -/

namespace Fragment

/-- The fragment that entries are written as. -/
def written (es : Entries) : String :=
  if es.isEmpty then "" else ofPayload (Value.compact .interchange (.object es))

theorem share_eq_written (s : State) :
    share s = written (significant s.withoutVisualCrop) := rfl

/-- What is shared of a state has the mark where the layers of the state have it. -/
theorem unmarked_significant {s : State}
    (hlayers : strict → s.Bears (·.visualCropEnabled = none)) :
    (significant s.withoutVisualCrop).Unmarked strict := by
  refine ⟨fun hnames => ?_, fun hstrict hmarks => ?_⟩
  · obtain ⟨e, he, hf⟩ := hnames
    have hset := State.names_of_names_entries Field.ofKey?_key ⟨e, (List.mem_filter.mp he).1, hf⟩
    cases hset
  · exact s.withoutVisualCrop.not_marksLayers_entries (Field.key_inj · .layers) (hlayers hstrict)
      hmarks.of_filter

/-- What is shared of a state has its layers as they are. -/
theorem mem_significant_layers {s : State} {v : Value} :
    ("layers", v) ∈ significant s.withoutVisualCrop ↔
      ∃ ls, s.layers = some ls ∧ v = .list (writeLayers ls) := by
  constructor
  · intro h
    exact s.withoutVisualCrop.layers_of_mem_entries (Field.key_inj · .layers)
      (List.mem_filter.mp h).1
  · rintro ⟨ls, hls, rfl⟩
    have hget : s.withoutVisualCrop.get .layers = some (.list (writeLayers ls)) := by
      show s.layers.map _ = _
      rw [hls]
      rfl
    have hlookup := s.withoutVisualCrop.lookup_entries Field.key_inj .layers
    -- No list is the default of the layers.
    exact List.mem_filter.mpr ⟨Entries.mem_of_lookup (hlookup.trans hget), rfl⟩

end Fragment

/-! ## Whatever an editor keeps -/

namespace Editor

open Edit Editor.Core

/-- Whether a state is one that an editor hands out or keeps: its tree, with the base image or
without, what is being edited as observers see it, or a tree of the history. -/
inductive Presents (e : Editor) : State → Prop where
  | root : Presents e e.root
  | base : Presents e e.baseState
  | visible {s : State} : e.visibleState = .ok s → Presents e s
  | past {s : State} : s ∈ e.history.past → Presents e s
  | future {s : State} : s ∈ e.history.future → Presents e s

theorem bears_visibleState {e : Editor} {s : State} (h : e.visibleState = .ok s)
    (hlayers : e.root.Bears (·.visualCropEnabled = none)) :
    s.Bears (·.visualCropEnabled = none) := by
  obtain ⟨t, ht, h⟩ := of_bind_eq_ok h
  have hbears := bears_of_current (P := (·.visualCropEnabled = none)) rfl hlayers ht
  refine hbears.of_layers ?_
  cases h
  split <;> rfl

theorem bears_baseState {e : Editor} (hlayers : e.root.Bears (·.visualCropEnabled = none)) :
    e.baseState.Bears (·.visualCropEnabled = none) := by
  refine hlayers.of_layers ?_
  unfold baseState
  split <;> rfl

/-- **What is kept has no mark at its root.**  In every run no tree of the history, no template and
no fragment for sharing has the mark at its root, and if no document of a move marks a layer, none
of them has it at any depth.  Templates and fragments have the layers as they are. -/
theorem kept_unmarked (settings : Settings) (imagePath : String) (size : Size)
    (bounds : Option Size) (moves : List Move) :
    let e := (start settings imagePath size bounds).after moves
    let strict := ∀ m ∈ moves, ¬ m.MarksLayers
    (∀ s ∈ e.history.past ++ e.history.future, s.Unmarked strict) ∧
      (∀ name mode description t, e.exportTemplate name mode description = .ok t →
        t.transformations.Unmarked strict ∧ t.transformations.layers = e.root.layers) ∧
      ∀ s, Presents e s → ∃ es, Fragment.share s = Fragment.written es ∧ es.Unmarked strict ∧
        ∀ v, ("layers", v) ∈ es ↔ ∃ ls, s.layers = some ls ∧ v = .list (writeLayers ls) := by
  intro e strict
  have htidy : Tidy strict (Had strict (start settings imagePath size bounds) moves) e.core :=
    tidy_after (fun _ => tidy_start settings imagePath size bounds) id
  -- What is kept takes its layers from the tree, which has the mark there only from documents.
  have hroot : strict → e.root.Bears (·.visualCropEnabled = none) := fun hstrict =>
    htidy.layers.mono fun p hp => hp.mark hstrict
  have hhad : ∀ s, Had strict (start settings imagePath size bounds) moves s →
      s.Unmarked strict := by
    rintro s ⟨n, -, rfl, hsound⟩
    exact ⟨hsound.plain, fun hstrict => hsound.layers.mono fun p hp => hp.mark hstrict⟩
  have hhistory : ∀ s ∈ e.history.past ++ e.history.future, s.Unmarked strict := by
    intro s hs
    rcases List.mem_append.mp hs with hs | hs
    · exact hhad s (htidy.history.past s hs)
    · exact hhad s (htidy.history.future s hs)
  refine ⟨hhistory, fun name mode description t ht => ?_, fun s hs => ?_⟩
  · obtain ⟨hplain, hlayers⟩ := of_exportTemplate ht
    exact ⟨⟨hplain, fun hstrict => (hroot hstrict).of_layers hlayers⟩, hlayers⟩
  refine ⟨_, Fragment.share_eq_written s, Fragment.unmarked_significant fun hstrict => ?_,
    fun v => Fragment.mem_significant_layers⟩
  cases hs with
  | root => exact hroot hstrict
  | base => exact bears_baseState (hroot hstrict)
  | visible h => exact bears_visibleState h (hroot hstrict)
  | past h => exact (hhistory s (List.mem_append_left _ h)).layers hstrict
  | future h => exact (hhistory s (List.mem_append_right _ h)).layers hstrict

/-- A layer with settings is added. -/
def addDot (settings : Entries) : List Move :=
  [.command (.addLayer (.object
    [("id", .text "dot"), ("imagePath", .text "dot.png"),
      ("originalDimensions", (Size.mk 1 1).write), ("transforms", .object settings)]))]

theorem not_marksLayers_addDot {settings : Entries} (h : ¬ settings.Marks) :
    ∀ m ∈ addDot settings, ¬ m.MarksLayers := by
  intro m hm hmarks
  obtain rfl := List.mem_singleton.mp hm
  obtain ⟨ts, hts, hkind⟩ := Value.marksLayer_object.mp hmarks
  obtain rfl : ts = settings := by simpa using hts
  exact h hkind

theorem exportTemplate_addDot (s : Settings) :
    (((start s "base.png" ⟨100, 100⟩ none).after (addDot [("grayscale", .bool true)])
      |>.exportTemplate none "adaptive" none).toOption.map
        (·.transformations.layerList.length)) = some 1 := by
  cbv

/-- A layer in gray is added: the template has it, without the mark, and so has the fragment. -/
theorem kept_unmarked_addDot :
    let e := (start {} "base.png" ⟨100, 100⟩ none).after (addDot [("grayscale", .bool true)])
    (∃ t, e.exportTemplate none "adaptive" none = .ok t ∧
        t.transformations.layerList.length = 1 ∧
        t.transformations.Bears (·.visualCropEnabled = none)) ∧
      ∃ es, Fragment.share e.root = Fragment.written es ∧ ¬ es.MarksLayers := by
  intro e
  have hgray : ¬ Entries.Marks [("grayscale", .bool true)] := by
    rintro (⟨d, hd, hkey⟩ | ⟨vs, l, hlayers, -⟩)
    · obtain rfl := List.mem_singleton.mp hd
      revert hkey
      decide
    · simp at hlayers
  have hstrict := not_marksLayers_addDot hgray
  obtain ⟨-, hexport, hshare⟩ :=
    kept_unmarked {} "base.png" ⟨100, 100⟩ none (addDot [("grayscale", .bool true)])
  obtain ⟨t, ht, hlength⟩ := Option.map_eq_some_iff.mp (exportTemplate_addDot {})
  have ht := of_toOption_eq_some ht
  obtain ⟨es, hwritten, hes⟩ := hshare e.root .root
  exact ⟨⟨t, ht, hlength, (hexport none "adaptive" none t ht).1.layers hstrict⟩,
    es, hwritten, hes.1.layers hstrict⟩

/-- A layer that is added with the mark takes it along into the template. -/
example (s : Settings) :
    (((start s "base.png" ⟨100, 100⟩ none).after (addDot [("visualCropEnabled", .bool true)])
      |>.exportTemplate none "adaptive" none).toOption.map fun t =>
        t.transformations.layerList.map (·.transforms.map (·.params.visualCropEnabled))) =
      some [some (some true)] := by
  cbv

end Editor

end Retouch
