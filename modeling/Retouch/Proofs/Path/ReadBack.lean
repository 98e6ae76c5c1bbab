/-
  Request paths whose filters read back.

  A filter can be told from its neighbours if its arguments are balanced (`Filter.Sound`), and all
  that are written are: numbers, positions and images have no parenthesis, and the path of a layer
  is balanced because its own filters are.  So the chain of every path is read as the filters that
  it was written from, and so is the chain of every path that was written into it, at whatever
  depth (`Encoding.readsBack_of_makes`).
-/
import Mathlib.Logic.Relation
import Retouch.Proofs.Path.Segments
import Retouch.Proofs.State.ReadBack

namespace Retouch

open Text

/-! ## Free texts -/

/-- Whether the texts of settings that are written as they are have no parenthesis. -/
structure Params.FlatWords (p : Params) : Prop where
  fillColor : ∀ s ∈ p.fillColor, Flat s
  format : ∀ s ∈ p.format, Flat s
  hAlign : ∀ s ∈ p.hAlign, Flat s
  vAlign : ∀ s ∈ p.vAlign, Flat s

/-- Whether the free texts of all settings in a tree have no parenthesis. -/
def State.FlatWords (s : State) : Prop :=
  s.Holds (fun _ => Params.FlatWords) (fun _ => True) false

/-- Whether the free texts in layers and in those on top of them have no parenthesis. -/
def FlatLayers (ls : List Layer) : Prop :=
  layersHold (fun _ => Params.FlatWords) (fun _ => True) ls

theorem Params.flatWords_empty : Params.FlatWords {} :=
  ⟨fun _ h => (by cases h), fun _ h => (by cases h), fun _ h => (by cases h),
    fun _ h => (by cases h)⟩

theorem State.flatWords_iff {s : State} :
    s.FlatWords ↔ s.params.FlatWords ∧ FlatLayers s.layerList := by
  obtain ⟨p, layers⟩ := s
  cases layers with
  | none => exact ⟨fun h => ⟨h, trivial⟩, And.left⟩
  | some ls => exact Iff.rfl

/-- The settings of a layer, if it has any, are among those of the tree. -/
theorem Layer.flatWords_state {l : Layer}
    (h : l.Holds (fun _ => Params.FlatWords) (fun _ => True)) : l.state.FlatWords := by
  obtain ⟨props, transforms⟩ := l
  cases transforms with
  | none => exact State.flatWords_iff.mpr ⟨Params.flatWords_empty, trivial⟩
  | some s =>
      obtain ⟨p, layers⟩ := s
      cases layers with
      | none => exact h.2
      | some ls => exact h.2

theorem FlatLayers.state {ls : List Layer} (h : FlatLayers ls) {l : Layer} (hl : l ∈ ls) :
    l.state.FlatWords :=
  Layer.flatWords_state (layersHold.of_mem h hl)

section

variable {α : Type} [Scalar α] {l : LayerProps} {p q : Params} {canvas : Option Size}

theorem Params.FlatWords.resolveFill (h : p.FlatWords) : (p.resolveFill canvas).FlatWords := by
  unfold Params.resolveFill
  split
  · exact ⟨h.fillColor, h.format, h.hAlign, h.vAlign⟩
  · exact h

/-- What a layer is rendered with has the free texts of its settings. -/
theorem LayerProps.flatWords_rendered (h : p.FlatWords) (hq : l.rendered α p canvas = .ok q) :
    q.FlatWords := by
  have hp : (p.withoutIdentity.resolveFill canvas).FlatWords :=
    Params.FlatWords.resolveFill ⟨h.fillColor, h.format, h.hAlign, h.vAlign⟩
  unfold LayerProps.rendered at hq
  simp only at hq
  split at hq
  · obtain ⟨size, -, hq⟩ := of_bind_eq_ok hq
    cases hq
    exact ⟨hp.fillColor, hp.format, hp.hAlign, hp.vAlign⟩
  · cases hq
    exact ⟨hp.fillColor, hp.format, hp.hAlign, hp.vAlign⟩

end

/-! ## Filters -/

namespace Filter

variable {name args : String} {f : Filter}

/-- A filter is sound if its name is, and its arguments are balanced. -/
theorem sound_of_name (hname : Sound ⟨name, ""⟩) (hargs : Balanced args) : Sound ⟨name, args⟩ :=
  ⟨hname.name_ne, hname.name_flat, hname.name_whole, hname.name_trim, hargs⟩

theorem sound_amountFilter (hname : Sound ⟨name, ""⟩) {amount : Option Float} {g : Float → Float}
    (hf : f ∈ amountFilter name amount g) : f.Sound := by
  unfold amountFilter at hf
  split at hf
  · split at hf
    · cases hf
    · rw [List.mem_singleton.mp hf]
      exact sound_of_name hname (Number.flat_pathText _).balanced
  · cases hf

theorem sound_markFilter (hname : Sound ⟨name, ""⟩) {mark : Option Bool}
    (hf : f ∈ markFilter name mark) : f.Sound := by
  unfold markFilter at hf
  split at hf
  · rwa [List.mem_singleton.mp hf]
  · cases hf

theorem sound_countFilter (hname : Sound ⟨name, ""⟩) {count : Option Int}
    (hf : f ∈ countFilter name count) : f.Sound := by
  unfold countFilter at hf
  split at hf
  · rw [List.mem_singleton.mp hf]
    exact sound_of_name hname (Number.flat_intText _).balanced
  · cases hf

theorem sound_wordFilter (hname : Sound ⟨name, ""⟩) {word : Option String}
    (hword : ∀ s ∈ word, Flat s) (hf : f ∈ wordFilter name word) : f.Sound := by
  unfold wordFilter at hf
  split at hf
  · split at hf
    · cases hf
    · rw [List.mem_singleton.mp hf]
      exact sound_of_name hname (hword _ rfl).balanced
  · cases hf

section

variable {α : Type} [Scalar α] {p : Params} {o : EncodeOptions α}

theorem sound_cornerFilter {radius : Option Int} {scale : α} {fs : List Filter}
    (h : cornerFilter radius scale = .ok fs) (hf : f ∈ fs) : f.Sound := by
  unfold cornerFilter at h
  split at h
  · cases h
    cases hf
  · obtain ⟨n, -, h⟩ := of_bind_eq_ok h
    cases h
    rw [List.mem_singleton.mp hf]
    exact sound_of_name (by decide) (Number.flat_intText _).balanced

theorem sound_frontFilters {scale : α} {fs : List Filter} (hp : p.FlatWords)
    (h : p.frontFilters scale = .ok fs) (hf : f ∈ fs) : f.Sound := by
  unfold Params.frontFilters at h
  obtain ⟨corner, hcorner, h⟩ := of_bind_eq_ok h
  cases h
  simp only [List.mem_append] at hf
  rcases hf with ((((((((hf | hf) | hf) | hf) | hf) | hf) | hf) | hf) | hf) | hf
  · exact sound_amountFilter (by decide) hf
  · exact sound_amountFilter (by decide) hf
  · exact sound_amountFilter (by decide) hf
  · exact sound_amountFilter (by decide) hf
  · exact sound_markFilter (by decide) hf
  · exact sound_amountFilter (by decide) hf
  · exact sound_amountFilter (by decide) hf
  · exact sound_cornerFilter hcorner hf
  · split at hf
    · rename_i color hcolor
      rw [List.mem_singleton.mp hf]
      exact sound_of_name (by decide) (hp.fillColor color hcolor).balanced
    · cases hf
  · exact sound_countFilter (by decide) hf

omit [Scalar α] in
theorem sound_backFilters (hp : p.FlatWords) (hformat : Flat o.previewFormat)
    (hextra : ∀ g ∈ o.extraFilters, g.Sound) (hf : f ∈ p.backFilters o) : f.Sound := by
  unfold Params.backFilters at hf
  simp only [List.mem_append] at hf
  rcases hf with ((((hf | hf) | hf) | hf) | hf) | hf
  · split at hf
    · rw [List.mem_singleton.mp hf]
      exact sound_of_name (by decide) hformat.balanced
    · simp only [List.mem_append] at hf
      rcases hf with (hf | hf) | hf
      · exact sound_wordFilter (by decide) hp.format hf
      · exact sound_countFilter (by decide) hf
      · exact sound_countFilter (by decide) hf
  · exact sound_markFilter (by decide) hf
  · exact sound_markFilter (by decide) hf
  · exact sound_markFilter (by decide) hf
  · exact hextra f hf
  · split at hf
    · rw [List.mem_singleton.mp hf]
      exact sound_of_name (by decide) (Number.flat_pathText _).balanced
    · cases hf

/-- All filters of an image are sound if those of its layers are. -/
theorem sound_filters {isLayer : Bool} {inner : Except Failure (List Filter)} {fs : List Filter}
    (hp : p.FlatWords) (hformat : Flat o.previewFormat) (hextra : ∀ g ∈ o.extraFilters, g.Sound)
    (hinner : ∀ gs, inner = .ok gs → ∀ g ∈ gs, g.Sound)
    (h : p.filters o isLayer inner = .ok fs) (hf : f ∈ fs) : f.Sound := by
  unfold Params.filters at h
  obtain ⟨front, hfront, h⟩ := of_bind_eq_ok h
  obtain ⟨middle, hmiddle, h⟩ := of_bind_eq_ok h
  cases h
  simp only [List.mem_append] at hf
  rcases hf with (hf | hf) | hf
  · exact sound_frontFilters hp hfront hf
  · exact hinner middle hmiddle f hf
  · split at hf
    · cases hf
    · exact sound_backFilters hp hformat hextra hf

end

section

variable {fs : List Filter} {segment : String}

/-- Without filters there is no segment of them. -/
theorem filterSegment_eq_nil : filterSegment fs = [] ↔ fs = [] := by
  rw [filterSegment, ite_eq_left_iff, List.isEmpty_iff]
  simp

theorem eq_of_mem_filterSegment (hsegment : segment ∈ filterSegment fs) :
    segment = chainWord ++ chainText fs := by
  unfold filterSegment at hsegment
  split at hsegment
  · cases hsegment
  · exact List.mem_singleton.mp hsegment

variable (h : ∀ f ∈ fs, f.Sound)

include h

theorem balanced_filterSegment (hsegment : segment ∈ filterSegment fs) : Balanced segment := by
  rw [eq_of_mem_filterSegment hsegment]
  refine Balanced.append (by decide) (Balanced.intercalate (by decide) fun t ht => ?_)
  obtain ⟨f, hf, rfl⟩ := List.mem_map.mp ht
  exact (h f hf).balanced_text

/-- The segment of filters is read as them. -/
theorem readChain_filterSegment (hsegment : segment ∈ filterSegment fs) :
    readChain segment = .ok fs := by
  rw [eq_of_mem_filterSegment hsegment]
  exact readChain_chain h

end

end Filter

/-! ## Segments -/

namespace Params

variable {p : Params} {width height : Option Int} {padding : Option (Sides Int)} {y : String}

theorem flat_frontSegments (hp : p.FlatWords) (hy : y ∈ p.frontSegments width height padding) :
    Flat y := by
  rcases mem_frontSegments hy with hmeasure | hword | halign | halign
  · exact hmeasure.flat
  · simp only [segmentWords, List.mem_cons, List.not_mem_nil, or_false] at hword
    rcases hword with rfl | rfl | rfl <;> decide
  · exact hp.hAlign y halign
  · exact hp.vAlign y halign

/-- A path is balanced if its filters are sound. -/
theorem balanced_path {α : Type} [Scalar α] (hp : p.FlatWords) {natural : Option Size} {scale : α}
    {front : List String} (hfront : p.front natural scale = .ok front) {fs : List Filter}
    (hfs : ∀ f ∈ fs, f.Sound) (imagePath : String) :
    Balanced (String.intercalate "/"
      (front ++ filterSegment fs ++ [ImagePath.encode imagePath])) := by
  obtain ⟨width, height, padding, rfl⟩ := front_eq_ok hfront
  refine Balanced.intercalate (by decide) fun y hy => ?_
  simp only [List.mem_append, List.mem_singleton] at hy
  rcases hy with (hy | hy) | rfl
  · exact (flat_frontSegments hp hy).balanced
  · exact Filter.balanced_filterSegment hfs hy
  · exact (ImagePath.flat_encode _).balanced

end Params

/-! ## Layers -/

section

variable {α : Type} [Scalar α] {scale : α} {canvas : Option Size}

/-- The settings and the layers of a layer are those of its state. -/
theorem Layer.filter_eq (canvas : Option Size) (scale : α) (l : Layer) :
    l.filter canvas scale = l.props.filter l.state.params canvas scale fun inside =>
      layerFilters inside scale l.state.layerList := by
  obtain ⟨props, transforms⟩ := l
  cases transforms with
  | none => rw [Layer.filter]; rfl
  | some s =>
      obtain ⟨p, layers⟩ := s
      cases layers with
      | none => rw [Layer.filter]; rfl
      | some ls => rw [Layer.filter]; rfl

/-- The filter of a layer is an image whose path is that of what the layer is rendered with. -/
theorem LayerProps.filter_eq_ok {l : LayerProps} {p : Params}
    {inner : Option Size → Except Failure (List Filter)} {f : Filter}
    (h : l.filter p canvas scale inner = .ok f) :
    ∃ q size sub rest, l.rendered α p canvas = .ok q ∧
      q.output α l.originalDimensions canvas = .ok size ∧
      q.path l.imagePath (some l.originalDimensions) { scale } true (some size) inner = .ok sub ∧
      f = ⟨"image", "/" ++ sub ++ "," ++ rest⟩ ∧ Balanced rest := by
  unfold LayerProps.filter at h
  obtain ⟨q, hq, h⟩ := of_bind_eq_ok h
  obtain ⟨size, hsize, h⟩ := of_bind_eq_ok h
  obtain ⟨sub, hsub, h⟩ := of_bind_eq_ok h
  obtain ⟨x, -, h⟩ := of_bind_eq_ok h
  obtain ⟨y, -, h⟩ := of_bind_eq_ok h
  cases h
  let rest := x.text :: y.text ::
    if l.alpha = 0 ∧ l.blend = .normal then [] else [Number.intText l.alpha, l.blend.name]
  have hrest : ∀ t ∈ rest, Flat t := by
    intro t ht
    rcases List.mem_cons.mp ht with rfl | ht
    · exact x.flat_text
    rcases List.mem_cons.mp ht with rfl | ht
    · exact y.flat_text
    split at ht
    · cases ht
    · simp only [List.mem_cons, List.not_mem_nil, or_false] at ht
      rcases ht with rfl | rfl
      · exact Number.flat_intText _
      · exact l.blend.flat_name
  refine ⟨q, size, sub, String.intercalate "," rest, hq, hsize, hsub, ?_,
    Balanced.intercalate (by decide) fun t ht => (hrest t ht).balanced⟩
  show Filter.mk "image" (String.intercalate "," (("/" ++ sub) :: rest)) = _
  rw [String.intercalate_cons_of_ne_nil (by simp [rest])]

/-- The filter of a layer is sound if those of its own layers are. -/
theorem LayerProps.sound_filter {l : LayerProps} {p : Params}
    {inner : Option Size → Except Failure (List Filter)} {f : Filter} (hp : p.FlatWords)
    (hinner : ∀ inside fs, inner inside = .ok fs → ∀ g ∈ fs, g.Sound)
    (h : l.filter p canvas scale inner = .ok f) : f.Sound := by
  obtain ⟨q, size, sub, rest, hq, -, hsub, rfl, hrest⟩ := LayerProps.filter_eq_ok h
  have hwords := LayerProps.flatWords_rendered hp hq
  obtain ⟨front, inside, fs, hfront, -, hfs, rfl⟩ := Params.path_eq_ok hsub
  have hsound : ∀ g ∈ fs, g.Sound := fun g hg =>
    Filter.sound_filters hwords (show Flat "webp" by decide) (fun _ h => (by cases h))
      (hinner inside) hfs hg
  have hbalanced := Params.balanced_path hwords hfront hsound l.imagePath
  exact Filter.sound_of_name (by decide)
    (((Balanced.append (by decide) hbalanced).append (by decide)).append hrest)

theorem layerFilters_cons (canvas : Option Size) (scale : α) (l : Layer) (ls : List Layer) :
    layerFilters canvas scale (l :: ls) =
      if l.props.visible then do
        let f ← l.filter canvas scale
        let fs ← layerFilters canvas scale ls
        return f :: fs
      else layerFilters canvas scale ls := by
  rw [layerFilters]

mutual

/-- The filter of a layer is sound. -/
theorem Layer.sound_filter (l : Layer) (canvas : Option Size)
    (hl : l.Holds (fun _ => Params.FlatWords) (fun _ => True)) {f : Filter}
    (h : l.filter canvas scale = .ok f) : f.Sound := by
  obtain ⟨props, transforms⟩ := l
  cases transforms with
  | none =>
      refine LayerProps.sound_filter Params.flatWords_empty (fun inside fs hfs => ?_)
        (Layer.filter_eq canvas scale _ ▸ h)
      cases hfs
      exact fun g hg => (by cases hg)
  | some s =>
      obtain ⟨p, layers⟩ := s
      cases layers with
      | none =>
          refine LayerProps.sound_filter hl.2 (fun inside fs hfs => ?_)
            (Layer.filter_eq canvas scale _ ▸ h)
          cases hfs
          exact fun g hg => (by cases hg)
      | some ls =>
          exact LayerProps.sound_filter hl.2.1
            (fun inside fs hfs => sound_layerFilters ls inside hl.2.2 hfs)
            (Layer.filter_eq canvas scale _ ▸ h)

/-- The filters of layers are sound. -/
theorem sound_layerFilters (ls : List Layer) (canvas : Option Size) (hls : FlatLayers ls)
    {fs : List Filter} (h : layerFilters canvas scale ls = .ok fs) : ∀ f ∈ fs, f.Sound := by
  cases ls with
  | nil =>
      rw [layerFilters] at h
      cases h
      exact fun g hg => (by cases hg)
  | cons l ls =>
      rw [layerFilters_cons] at h
      split at h
      · obtain ⟨f, hf, h⟩ := of_bind_eq_ok h
        obtain ⟨gs, hgs, h⟩ := of_bind_eq_ok h
        cases h
        intro g hg
        rcases List.mem_cons.mp hg with rfl | hg
        · exact Layer.sound_filter l canvas hls.1 hf
        · exact sound_layerFilters ls canvas hls.2 hgs g hg
      · exact sound_layerFilters ls canvas hls.2 h

end

/-- Each layer that shows has its filter among those of the layers. -/
theorem mem_layerFilters {ls : List Layer} {fs : List Filter}
    (h : layerFilters canvas scale ls = .ok fs) {l : Layer} (hl : l ∈ ls)
    (hvisible : l.props.visible = true) : ∃ f ∈ fs, l.filter canvas scale = .ok f := by
  induction ls generalizing fs with
  | nil => cases hl
  | cons m ls ih =>
      rw [layerFilters_cons] at h
      split at h
      · obtain ⟨f, hf, h⟩ := of_bind_eq_ok h
        obtain ⟨gs, hgs, h⟩ := of_bind_eq_ok h
        cases h
        rcases List.mem_cons.mp hl with rfl | hl
        · exact ⟨f, List.mem_cons_self, hf⟩
        · obtain ⟨g, hg, heq⟩ := ih hgs hl
          exact ⟨g, List.mem_cons_of_mem _ hg, heq⟩
      · rename_i hhidden
        rcases List.mem_cons.mp hl with rfl | hl
        · exact absurd hvisible hhidden
        · exact ih h hl

end

/-! ## Whole paths -/

/-- What a path is written of. -/
structure Encoding (α : Type) where
  state : State
  imagePath : String
  natural : Option Size
  options : EncodeOptions α
  isLayer : Bool
  canvas : Option Size

namespace Encoding

variable {α : Type} [Scalar α] {c d : Encoding α} {t : String}

/-- The written path. -/
def path (c : Encoding α) : Except Failure String :=
  c.state.path c.imagePath c.natural c.options c.isLayer c.canvas

/-- What the path of an encoding is made of, apart from the image: the segments before the filters,
and the filters. -/
structure Parts (c : Encoding α) (front : List String) (fs : List Filter) : Prop where
  front_eq : c.state.params.front c.natural c.options.scale = .ok front
  filters_eq : ∃ inside, c.state.params.canvasInside α c.natural c.canvas = .ok inside ∧
    c.state.filters inside c.options c.isLayer = .ok fs

theorem parts_of_path (h : c.path = .ok t) : ∃ front fs, c.Parts front fs ∧
    t = String.intercalate "/" (front ++ filterSegment fs ++ [ImagePath.encode c.imagePath]) := by
  obtain ⟨front, inside, fs, hfront, hinside, hfs, ht⟩ := Params.path_eq_ok h
  exact ⟨front, fs, ⟨hfront, inside, hinside, hfs⟩, ht⟩

/-- Whether the path of one encoding is written, for a layer that shows, into that of another. -/
def Makes (c d : Encoding α) : Prop :=
  ∃ l ∈ c.state.layerList, ∃ inside q size, l.props.visible = true ∧
    c.state.params.canvasInside α c.natural c.canvas = .ok inside ∧
    l.props.rendered α l.state.params inside = .ok q ∧
    q.output α l.props.originalDimensions inside = .ok size ∧
    d = ⟨{ l.state with params := q }, l.props.imagePath, some l.props.originalDimensions,
      { scale := c.options.scale }, true, some size⟩

/-- Whether the texts that come from outside have no parenthesis, and the filters that do are
sound. -/
structure Plain (c : Encoding α) : Prop where
  words : c.state.FlatWords
  previewFormat : Flat c.options.previewFormat
  extraFilters : ∀ f ∈ c.options.extraFilters, f.Sound

omit [Scalar α] in
theorem Plain.params (h : c.Plain) : c.state.params.FlatWords :=
  (State.flatWords_iff.mp h.words).1

omit [Scalar α] in
theorem Plain.layers (h : c.Plain) : FlatLayers c.state.layerList :=
  (State.flatWords_iff.mp h.words).2

theorem Plain.of_makes (h : c.Plain) (hd : c.Makes d) : d.Plain := by
  obtain ⟨l, hl, inside, q, size, -, -, hq, -, rfl⟩ := hd
  have hstate := State.flatWords_iff.mp (h.layers.state hl)
  exact ⟨State.flatWords_iff.mpr ⟨LayerProps.flatWords_rendered hstate.1 hq, hstate.2⟩,
    show Flat "webp" by decide, fun _ h => (by cases h)⟩

/-- Whether the segment of filters in the path of an encoding, which is left out only if there are
none, is read as the filters of the encoding, and each path that was written into it stands,
balanced, in one of the filters. -/
structure ReadsBack (c : Encoding α) (t : String) : Prop where
  path_eq : c.path = .ok t
  balanced : Balanced t
  chain : ∃ front fs, c.Parts front fs ∧
    t = String.intercalate "/" (front ++ filterSegment fs ++ [ImagePath.encode c.imagePath]) ∧
    (filterSegment fs = [] ↔ fs = []) ∧
    (∀ segment ∈ filterSegment fs, Filter.readChain segment = .ok fs) ∧
    ∀ d, c.Makes d → ∃ sub rest, d.path = .ok sub ∧ Balanced sub ∧ Balanced rest ∧
      ⟨"image", "/" ++ sub ++ "," ++ rest⟩ ∈ fs

variable {front : List String} {fs : List Filter}

/-- Each encoding that makes others has the filters of their layers in its chain. -/
theorem Parts.filter_of_makes (h : c.Parts front fs) (hd : c.Makes d) :
    ∃ sub rest, d.path = .ok sub ∧ Balanced rest ∧ ⟨"image", "/" ++ sub ++ "," ++ rest⟩ ∈ fs := by
  obtain ⟨inside, hinside, hfs⟩ := h.filters_eq
  obtain ⟨l, hl, inside', q, size, hvisible, hinside', hq, hsize, rfl⟩ := hd
  obtain rfl := Except.ok.inj (hinside.symm.trans hinside')
  unfold State.filters Params.filters at hfs
  obtain ⟨before, -, hfs⟩ := of_bind_eq_ok hfs
  obtain ⟨middle, hmiddle, hfs⟩ := of_bind_eq_ok hfs
  cases hfs
  obtain ⟨f, hf, hfilter⟩ := mem_layerFilters hmiddle hl hvisible
  rw [Layer.filter_eq] at hfilter
  obtain ⟨q', size', sub, rest, hq', hsize', hsub, rfl, hrest⟩ := LayerProps.filter_eq_ok hfilter
  obtain rfl := Except.ok.inj (hq.symm.trans hq')
  obtain rfl := Except.ok.inj (hsize.symm.trans hsize')
  exact ⟨sub, rest, hsub, hrest, List.mem_append_left _ (List.mem_append_right _ hf)⟩

/-- Filters that an encoding writes are sound. -/
theorem Plain.sound_filters (hc : c.Plain) (h : c.Parts front fs) : ∀ f ∈ fs, f.Sound := by
  obtain ⟨inside, -, hfs⟩ := h.filters_eq
  exact fun _ hf => Filter.sound_filters hc.params hc.previewFormat hc.extraFilters
    (fun _ hgs => sound_layerFilters _ inside hc.layers hgs) hfs hf

theorem Plain.balanced_path (hc : c.Plain) (h : c.path = .ok t) : Balanced t := by
  obtain ⟨front, fs, hparts, rfl⟩ := parts_of_path h
  exact Params.balanced_path hc.params hparts.front_eq (hc.sound_filters hparts) c.imagePath

/-- What one encoding writes reads back. -/
theorem Plain.readsBack (hc : c.Plain) (h : c.path = .ok t) : c.ReadsBack t := by
  obtain ⟨front, fs, hparts, ht⟩ := parts_of_path h
  refine ⟨h, hc.balanced_path h, front, fs, hparts, ht,
    Filter.filterSegment_eq_nil,
    fun _ hsegment => Filter.readChain_filterSegment (hc.sound_filters hparts) hsegment,
    fun d hd => ?_⟩
  obtain ⟨sub, rest, hsub, hrest, hmem⟩ := hparts.filter_of_makes hd
  exact ⟨sub, rest, hsub, (hc.of_makes hd).balanced_path hsub, hrest, hmem⟩

/-- Whatever a path holds, its chain of filters reads back, and so does that of each path inside
it, at whatever depth. -/
theorem readsBack_of_makes (hc : c.Plain) (h : c.path = .ok t)
    (hd : Relation.ReflTransGen Makes c d) : ∃ sub, d.ReadsBack sub := by
  suffices hboth : d.Plain ∧ ∃ sub, d.path = .ok sub by
    obtain ⟨hplain, sub, hsub⟩ := hboth
    exact ⟨sub, hplain.readsBack hsub⟩
  -- The induction is on how deep the path stands; each one is written, as the one around it is.
  induction hd with
  | refl => exact ⟨hc, t, h⟩
  | tail _ hmakes ih =>
      obtain ⟨hplain, sub, hsub⟩ := ih
      obtain ⟨front, fs, hparts, -⟩ := parts_of_path hsub
      obtain ⟨inner, -, hinner, -, -⟩ := hparts.filter_of_makes hmakes
      exact ⟨hplain.of_makes hmakes, inner, hinner⟩

/-- A badge on a sticker. -/
def badgedSticker : List Layer :=
  [⟨{ id := "sticker", imagePath := "a (1).png", originalDimensions := ⟨20, 10⟩ },
    some ⟨{ grayscale := some true },
      some [⟨{ id := "badge", imagePath := "b:c.png", originalDimensions := ⟨4, 4⟩
               x := .aligned .right 2, alpha := 30 }, none⟩]⟩⟩]

/-- A badge on a sticker on a photo. -/
def badged : Encoding Rat where
  state := ⟨{ width := some 100, height := some 80, fillColor := some "a/b:c,d" },
    some badgedSticker⟩
  imagePath := "photo.jpg"
  natural := some ⟨1000, 800⟩
  options := { scale := 1 }
  isLayer := false
  canvas := none

/-- The path of a photo with a badge on a sticker, and the path of the badge inside it, read
back. -/
theorem readsBack_badged : ∃ t d sub, badged.path = .ok t ∧
    Relation.ReflTransGen Makes badged d ∧ d.imagePath = "b:c.png" ∧ d.ReadsBack sub := by
  have hplain : badged.Plain := by
    refine ⟨⟨⟨fun s hs => ?_, ?_, ?_, ?_⟩, ⟨trivial, ⟨?_, ?_, ?_, ?_⟩, trivial, trivial⟩, trivial⟩,
      show Flat "webp" by decide, fun _ h => (by cases h)⟩
    · cases hs
      decide
    all_goals exact fun _ h => (by cases h)
  have hpath : badged.path = .ok ("100x80/filters:fill(a/b:c,d):image(/20x10/" ++
      "filters:grayscale():image(/4x4/b:c.png,right-2,center,30,normal)/b64:YSAoMSkucG5n," ++
      "center,center)/photo.jpg") := of_toOption_eq_some (by decide +kernel)
  have hsticker : badged.Makes _ :=
    ⟨_, List.mem_cons_self, some ⟨100, 80⟩, _, ⟨20, 10⟩, rfl, rfl, rfl, rfl, rfl⟩
  have hmakes := (Relation.ReflTransGen.single hsticker).tail
    ⟨_, List.mem_cons_self, some ⟨20, 10⟩, _, ⟨4, 4⟩, rfl, rfl, rfl, rfl, rfl⟩
  obtain ⟨sub, hsub⟩ := readsBack_of_makes hplain hpath hmakes
  exact ⟨_, _, sub, hpath, hmakes, rfl, hsub⟩

end Encoding

end Retouch
