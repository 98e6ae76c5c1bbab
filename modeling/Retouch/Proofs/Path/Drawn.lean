/-
  What a path tells of a state.

  Much of a state can be set without effect: layers that are hidden, a crop that is not complete,
  padding without a color, the alignment of an image that is fitted in, the file format of a layer.
  `State.drawn` leaves all of this out, at every depth, and the path stays the same
  (`State.path_drawn`); so two states that differ in nothing else have one path.

  Whatever reads a setting guards it by the others, and each guard is respected on its own
  (`Params.cropSegment_drawn`, `Params.scaledPadding_drawn`, `Params.alignSegments_drawn`).  A layer
  is first made explicit; what is left out of it before is what is left out of it afterwards
  (`LayerProps.rendered_drawn`).
-/
import Retouch.Proofs.Output
import Retouch.Proofs.Path.ReadBack

namespace Retouch

/-! ## Settings -/

namespace Params

/-- The settings that show: a crop if it is complete, padding if there is a color for it, and an
alignment unless the image is fitted in. -/
def drawn (p : Params) : Params :=
  { p with
    imagePath := none
    originalDimensions := none
    hAlign := if p.fitIn = some true then none else p.hAlign
    vAlign := if p.fitIn = some true then none else p.vAlign
    cropLeft := if p.hasCrop then p.cropLeft else none
    cropTop := if p.hasCrop then p.cropTop else none
    cropWidth := if p.hasCrop then p.cropWidth else none
    cropHeight := if p.hasCrop then p.cropHeight else none
    visualCropEnabled := none
    paddingTop := if p.hasFill then p.paddingTop else none
    paddingRight := if p.hasFill then p.paddingRight else none
    paddingBottom := if p.hasFill then p.paddingBottom else none
    paddingLeft := if p.hasFill then p.paddingLeft else none }

/-- The settings without those of the file that is written, which only the whole canvas has. -/
def withoutFile (p : Params) : Params :=
  { p with
    format := none
    quality := none
    maxBytes := none
    stripIcc := none
    stripExif := none
    stripMetadata := none
    proportion := none }

variable (p : Params)

theorem hasCrop_drawn : p.drawn.hasCrop = p.hasCrop := by
  cases h : p.hasCrop with
  | true =>
      simp only [drawn, h, if_true]
      exact h
  | false =>
      simp only [drawn, h, if_false, Bool.false_eq_true]
      rfl

/-- If one of the four fields is unset, the image is not cropped. -/
theorem source_of_not_hasCrop {p : Params} (h : p.hasCrop = false) (natural : Size) :
    p.source natural = natural := by
  unfold source
  split
  · rename_i hleft htop hwidth hheight
    simp [hasCrop, hleft, htop, hwidth, hheight] at h
  · rfl

theorem cropSegment_of_not_hasCrop {p : Params} (h : p.hasCrop = false) : p.cropSegment = [] := by
  unfold cropSegment
  split
  · rename_i hleft htop hwidth hheight
    simp [hasCrop, hleft, htop, hwidth, hheight] at h
  · rfl

theorem source_drawn (natural : Size) : p.drawn.source natural = p.source natural := by
  cases h : p.hasCrop with
  | true => simp only [source, drawn, h, if_true]
  | false =>
      rw [source_of_not_hasCrop h, source_of_not_hasCrop (p.hasCrop_drawn.trans h)]

theorem cropSegment_drawn : p.drawn.cropSegment = p.cropSegment := by
  cases h : p.hasCrop with
  | true => simp only [cropSegment, drawn, h, if_true]
  | false =>
      rw [cropSegment_of_not_hasCrop h, cropSegment_of_not_hasCrop (p.hasCrop_drawn.trans h)]

theorem hasFill_drawn : p.drawn.hasFill = p.hasFill := rfl

theorem padding_drawn (h : p.hasFill = true) : p.drawn.padding = p.padding := by
  simp only [padding, drawn, h, if_true]

theorem padded_drawn (s : Size) : p.drawn.padded s = p.padded s := by
  unfold padded
  rw [hasFill_drawn]
  split
  · rename_i h
    rw [p.padding_drawn h]
  · rfl

/-- What shows of settings is enough for the size. -/
theorem sameFrame_drawn : p.drawn.SameFrame p :=
  ⟨p.source_drawn, rfl, p.padded_drawn, fun _ => rfl⟩

theorem alignSegments_drawn : p.drawn.alignSegments = p.alignSegments := by
  by_cases h : p.fitIn = some true
  · simp only [alignSegments, drawn, h, if_true]
  · simp only [alignSegments, drawn, h, if_false]

theorem frontSegments_drawn (width height : Option Int) (padding : Option (Sides Int)) :
    p.drawn.frontSegments width height padding = p.frontSegments width height padding := by
  unfold frontSegments
  rw [cropSegment_drawn, alignSegments_drawn]
  rfl

section

variable {α : Type} [Scalar α]

theorem resized_drawn (natural : Size) (canvas : Option Size) :
    p.drawn.resized α natural canvas = p.resized α natural canvas := by
  unfold resized
  rw [source_drawn]
  rfl

theorem output_drawn (natural : Size) (canvas : Option Size) :
    p.drawn.output α natural canvas = p.output α natural canvas :=
  p.sameFrame_drawn.output_eq α rfl

theorem scaledTarget_drawn (natural : Option Size) (scale : α) :
    p.drawn.scaledTarget natural scale = p.scaledTarget natural scale := by
  unfold scaledTarget
  simp only [resized_drawn]
  rfl

theorem scaledPadding_drawn (scale : α) : p.drawn.scaledPadding scale = p.scaledPadding scale := by
  unfold scaledPadding
  rw [hasFill_drawn]
  split
  · rename_i h
    rw [p.padding_drawn h]
  · rfl

/-- What shows of settings is enough for the path. -/
theorem path_drawn (imagePath : String) (natural : Option Size) (o : EncodeOptions α)
    (isLayer : Bool) (canvas : Option Size)
    (inner : Option Size → Except Failure (List Filter)) :
    p.drawn.path imagePath natural o isLayer canvas inner =
      p.path imagePath natural o isLayer canvas inner := by
  have hfilters : p.drawn.filters o isLayer = p.filters o isLayer := rfl
  unfold path
  simp only [scaledTarget_drawn, scaledPadding_drawn, output_drawn, frontSegments_drawn, hfilters]

/-- The path of a layer tells nothing of a file. -/
theorem path_withoutFile (imagePath : String) (natural : Option Size) (o : EncodeOptions α)
    (canvas : Option Size) (inner : Option Size → Except Failure (List Filter)) :
    p.withoutFile.path imagePath natural o true canvas inner =
      p.path imagePath natural o true canvas inner := rfl

end

/-- Whether an axis follows a canvas, so that there is something to resolve. -/
def Fills (canvas : Option Size) : Prop :=
  (p.widthFull = some true ∨ p.heightFull = some true) ∧ canvas.isSome

variable {p}

theorem Fills.resolveFill_eq {canvas : Option Size} (h : p.Fills canvas) :
    p.resolveFill canvas =
      { p with
        width := (p.target canvas).1, height := (p.target canvas).2
        widthFull := none, widthFullOffset := none
        heightFull := none, heightFullOffset := none } :=
  if_pos h

theorem resolveFill_of_not_fills {canvas : Option Size} (h : ¬ p.Fills canvas) :
    p.resolveFill canvas = p :=
  if_neg h

/-- Axes follow a canvas alike before something is left out and afterwards. -/
theorem resolveFill_drawn (p : Params) (canvas : Option Size) :
    p.withoutFile.drawn.withoutIdentity.resolveFill canvas =
      (p.withoutIdentity.resolveFill canvas).withoutFile.drawn := by
  by_cases h : p.Fills canvas
  · have hbefore : p.withoutIdentity.Fills canvas := h
    have hafter : p.withoutFile.drawn.withoutIdentity.Fills canvas := h
    rw [hbefore.resolveFill_eq, hafter.resolveFill_eq]
    rfl
  · have hbefore : ¬ p.withoutIdentity.Fills canvas := h
    have hafter : ¬ p.withoutFile.drawn.withoutIdentity.Fills canvas := h
    rw [resolveFill_of_not_fills hbefore, resolveFill_of_not_fills hafter]
    rfl

end Params

/-! ## Layers -/

/-- A layer without what it is called. -/
def LayerProps.drawn (l : LayerProps) : LayerProps :=
  { l with id := "", name := "" }

section

variable {α : Type} [Scalar α]

/-- What is left out of a layer stays out of what it is rendered with. -/
theorem LayerProps.rendered_drawn (l : LayerProps) (p : Params) (canvas : Option Size) :
    l.drawn.rendered α p.withoutFile.drawn canvas =
      (fun q => q.withoutFile.drawn) <$> l.rendered α p canvas := by
  unfold rendered
  rw [p.resolveFill_drawn]
  obtain ⟨q, hq⟩ : ∃ q, p.withoutIdentity.resolveFill canvas = q := ⟨_, rfl⟩
  have hresized : q.withoutFile.drawn.resized α l.originalDimensions none =
      q.resized α l.originalDimensions none := q.withoutFile.resized_drawn _ _
  rw [hq]
  by_cases h : ((Params.wanted q.width).isNone && (Params.wanted q.height).isNone) = true
  · refine (if_pos h).trans ?_
    rw [if_pos h, map_bind]
    exact congrArg (· >>= _) hresized
  · refine (if_neg h).trans ?_
    rw [if_neg h]
    rfl

/-- A layer has the filter of what shows of it. -/
theorem LayerProps.filter_drawn (l : LayerProps) (p : Params) (canvas : Option Size) (scale : α)
    (inner : Option Size → Except Failure (List Filter)) :
    l.drawn.filter p.withoutFile.drawn canvas scale inner = l.filter p canvas scale inner := by
  unfold filter
  rw [rendered_drawn, bind_map_left]
  refine bind_congr fun q => ?_
  have houtput : q.withoutFile.drawn.output α l.originalDimensions canvas =
      q.output α l.originalDimensions canvas := q.withoutFile.output_drawn _ _
  show (q.withoutFile.drawn.output α l.originalDimensions canvas >>= _) = _
  rw [houtput]
  refine bind_congr fun size => ?_
  show (q.withoutFile.drawn.path _ _ _ _ _ _ >>= _) = _
  rw [Params.path_drawn, Params.path_withoutFile]
  rfl

mutual

/-- What shows of a layer. One without settings counts as one whose settings ask for nothing. -/
def Layer.drawn : Layer → Layer
  | ⟨l, some ⟨p, some ls⟩⟩ => ⟨l.drawn, some ⟨p.withoutFile.drawn, some (drawnLayers ls)⟩⟩
  | ⟨l, some ⟨p, none⟩⟩ => ⟨l.drawn, some ⟨p.withoutFile.drawn, some []⟩⟩
  | ⟨l, none⟩ => ⟨l.drawn, some ⟨{}, some []⟩⟩

/-- What shows of layers: those that are hidden are left out. -/
def drawnLayers : List Layer → List Layer
  | [] => []
  | l :: ls => if l.props.visible then l.drawn :: drawnLayers ls else drawnLayers ls

end

/-- What shows of a state: of its settings, and of the layers that show. -/
def State.drawn (s : State) : State :=
  ⟨s.params.drawn, some (drawnLayers s.layerList)⟩

theorem Layer.props_drawn (l : Layer) : l.drawn.props = l.props.drawn := by
  obtain ⟨props, transforms⟩ := l
  cases transforms with
  | none => rw [Layer.drawn]
  | some s =>
      obtain ⟨p, layers⟩ := s
      cases layers with
      | none => rw [Layer.drawn]
      | some ls => rw [Layer.drawn]

mutual

theorem Layer.filter_drawn (l : Layer) (canvas : Option Size) (scale : α) :
    l.drawn.filter canvas scale = l.filter canvas scale := by
  obtain ⟨props, transforms⟩ := l
  cases transforms with
  | none =>
      rw [Layer.drawn, Layer.filter, Layer.filter]
      exact props.filter_drawn {} canvas scale _
  | some s =>
      obtain ⟨p, layers⟩ := s
      cases layers with
      | none =>
          rw [Layer.drawn, Layer.filter, Layer.filter]
          exact props.filter_drawn p canvas scale _
      | some ls =>
          -- The canvas that the layers lie on is that of the layer below, so it is the same too.
          rw [Layer.drawn, Layer.filter, Layer.filter]
          simp only [layerFilters_drawn ls]
          exact props.filter_drawn p canvas scale _

theorem layerFilters_drawn (ls : List Layer) (canvas : Option Size) (scale : α) :
    layerFilters canvas scale (drawnLayers ls) = layerFilters canvas scale ls := by
  cases ls with
  | nil => rw [drawnLayers]
  | cons l ls =>
      rw [drawnLayers, layerFilters_cons]
      by_cases h : l.props.visible = true
      · have hdrawn : l.drawn.props.visible = true := by
          rw [Layer.props_drawn]
          exact h
        rw [if_pos h, if_pos h, layerFilters_cons, if_pos hdrawn, Layer.filter_drawn l,
          layerFilters_drawn ls]
      · rw [if_neg h, if_neg h, layerFilters_drawn ls]

end

/-! ## States -/

namespace State

/-- What shows of a state is enough for its path. -/
theorem path_drawn (s : State) (imagePath : String) (natural : Option Size) (o : EncodeOptions α)
    (isLayer : Bool) (canvas : Option Size) :
    s.drawn.path imagePath natural o isLayer canvas =
      s.path imagePath natural o isLayer canvas := by
  have hinner : (fun inside => layerFilters inside o.scale s.drawn.layerList) =
      fun inside => layerFilters inside o.scale s.layerList :=
    funext fun inside => layerFilters_drawn s.layerList inside o.scale
  unfold path
  rw [hinner]
  exact s.params.path_drawn imagePath natural o isLayer canvas _

/-- States of which the same shows have the same path for every image, in every size, with all
options; where one has none, the other has none for the same reason. -/
theorem path_eq_of_drawn {s t : State} (h : s.drawn = t.drawn) (imagePath : String)
    (natural : Option Size) (o : EncodeOptions α) (isLayer : Bool) (canvas : Option Size) :
    s.path imagePath natural o isLayer canvas = t.path imagePath natural o isLayer canvas := by
  rw [← s.path_drawn, h, t.path_drawn]

/-- A logo on a photo that is fitted in. -/
def stamped : State :=
  ⟨{ width := some 200, fitIn := some true },
    some [⟨{ id := "a", imagePath := "logo.png", originalDimensions := ⟨20, 10⟩ },
      some ⟨{ grayscale := some true }, none⟩⟩]⟩

/-- The same logo on the same photo, with much that does not show. -/
def cluttered : State :=
  ⟨{ imagePath := some "photo.jpg", originalDimensions := some ⟨1000, 800⟩, width := some 200
     fitIn := some true, hAlign := some "left", cropLeft := some 10, cropTop := some 20
     cropWidth := some 30, visualCropEnabled := some true, paddingTop := some 5 },
    some [⟨{ id := "b", imagePath := "draft.png", originalDimensions := ⟨9, 9⟩, visible := false },
        none⟩,
      ⟨{ id := "c", name := "Logo", imagePath := "logo.png", originalDimensions := ⟨20, 10⟩ },
        some ⟨{ grayscale := some true, format := some "png", quality := some 80
                stripIcc := some true, paddingLeft := some 3, proportion := some 50.0 },
          some [⟨{ id := "d", imagePath := "draft.png", originalDimensions := ⟨9, 9⟩,
                   visible := false }, none⟩]⟩⟩]⟩

/-- What does not show leaves no trace in the path. -/
theorem path_cluttered : cluttered.drawn = stamped.drawn ∧
    cluttered.path "photo.jpg" (some ⟨1000, 800⟩) { scale := (1 / 2 : Rat) } false none =
      .ok ("fit-in/100x0/filters:image(/10x5/filters:grayscale()/logo.png,center,center)" ++
        "/photo.jpg") := by
  have hdrawn : cluttered.drawn = stamped.drawn := rfl
  refine ⟨hdrawn, (path_eq_of_drawn hdrawn _ _ _ _ _).trans ?_⟩
  exact of_toOption_eq_some (by decide +kernel)

end State

end

end Retouch
