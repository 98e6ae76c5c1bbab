/-
  Thumbnails of a composition.

  A thumbnail is the composition with another size at the root, into which the image of the root is
  fitted.  The layers are not scaled with it: a layer that does not follow its canvas is written by
  one filter on every canvas (`Layer.filter_unbound`), so with the extents and the coordinates that
  it has in the composition (`Layer.Occupies.places`).  Main result: the thumbnail shows what the
  composition does only if it is as large, up to a pixel (`Editor.thumbnail_shows`).
-/
import Retouch.Proofs.Geometry.Fit
import Retouch.Proofs.Path.Canvas

namespace Retouch

/-! ## Layers that follow no canvas -/

/-- Whether no axis follows the canvas below. -/
structure Params.Unbound (p : Params) : Prop where
  widthFull : p.widthFull ≠ some true
  heightFull : p.heightFull ≠ some true

section

variable {α : Type} [Scalar α] {p q : Params}

theorem Params.Unbound.resolveFill_eq (h : p.Unbound) (canvas : Option Size) :
    p.resolveFill canvas = p :=
  if_neg fun hfull => hfull.1.elim h.widthFull h.heightFull

theorem Params.Unbound.output_eq (h : p.Unbound) (natural : Size) (canvas canvas' : Option Size) :
    p.output α natural canvas = p.output α natural canvas' := by
  have htarget : p.target canvas = p.target canvas' := by
    rw [target_of_not_full h.widthFull h.heightFull, target_of_not_full h.widthFull h.heightFull]
  exact SameFrame.output_eq α ⟨fun _ => rfl, rfl, fun _ => rfl, fun _ => rfl⟩ htarget

variable {l : LayerProps}

theorem LayerProps.rendered_unbound (h : p.Unbound) (canvas canvas' : Option Size) :
    l.rendered α p canvas = l.rendered α p canvas' := by
  have h' : p.withoutIdentity.Unbound := ⟨h.widthFull, h.heightFull⟩
  unfold rendered
  rw [h'.resolveFill_eq, h'.resolveFill_eq]

/-- What a layer is rendered with follows no canvas if its settings do not. -/
theorem Params.Unbound.rendered {canvas : Option Size} (h : p.Unbound)
    (hq : l.rendered α p canvas = .ok q) : q.Unbound := by
  have h' : p.withoutIdentity.Unbound := ⟨h.widthFull, h.heightFull⟩
  unfold LayerProps.rendered at hq
  rw [h'.resolveFill_eq] at hq
  simp only at hq
  split at hq
  · obtain ⟨size, -, hq⟩ := of_bind_eq_ok hq
    cases hq
    exact ⟨h.widthFull, h.heightFull⟩
  · cases hq
    exact ⟨h.widthFull, h.heightFull⟩

theorem LayerProps.filter_unbound (h : p.Unbound) (canvas canvas' : Option Size) (scale : α)
    (inner : Option Size → Except Failure (List Filter)) :
    l.filter p canvas scale inner = l.filter p canvas' scale inner := by
  unfold LayerProps.filter
  rw [LayerProps.rendered_unbound h canvas canvas']
  cases hq : l.rendered α p canvas' with
  | error f => rfl
  | ok q =>
      -- The canvas matters once more: to the size that the layers on this one are told.
      have hsize : q.output α l.originalDimensions canvas =
          q.output α l.originalDimensions canvas' := (h.rendered hq).output_eq _ _ _
      show (q.output α l.originalDimensions canvas >>= _) = _
      rw [hsize]
      rfl

/-- A layer that follows no canvas is written by one filter on every canvas. -/
theorem Layer.filter_unbound {l : Layer} (h : l.state.params.Unbound)
    (canvas canvas' : Option Size) (scale : α) :
    l.filter canvas scale = l.filter canvas' scale := by
  rw [Layer.filter_eq, Layer.filter_eq]
  exact LayerProps.filter_unbound h canvas canvas' scale _

end

/-! ## Boxes on a canvas -/

/-- The value of a coordinate. -/
def Number.exact : Number → Rat
  | .int n => n
  | .float x => exactValue x

/-- Extents and coordinates in pixels. -/
structure Box where
  size : Size
  x : Number
  y : Number

/-- Whether a box lies on a canvas, up to a slack at the far edges. -/
structure Box.On (b : Box) (canvas : Size) (slack : Rat) : Prop where
  left : 0 ≤ b.x.exact
  top : 0 ≤ b.y.exact
  right : b.x.exact + b.size.width ≤ canvas.width + slack
  bottom : b.y.exact + b.size.height ≤ canvas.height + slack

/-- Whether a layer has extents and coordinates of its own. -/
structure Layer.Occupies (l : Layer) (b : Box) : Prop where
  unbound : l.state.params.Unbound
  width : l.state.params.width = some b.size.width
  height : l.state.params.height = some b.size.height
  positive : b.size.Positive
  x : l.props.x = .absolute b.x
  y : l.props.y = .absolute b.y

/-- Whether a filter writes an image into a box: the path asks for the extents, and the coordinates
    stand behind it. -/
def Filter.Places (f : Filter) (b : Box) : Prop :=
  ∃ (q : Params) (padding : Option (Sides Int)) (fs : List Filter) (imagePath : String)
    (blending : List String),
    f = ⟨"image", String.intercalate "," (["/" ++ String.intercalate "/"
      (q.frontSegments (some b.size.width) (some b.size.height) padding ++ filterSegment fs ++
        [ImagePath.encode imagePath]),
      (Position.absolute b.x).text, (Position.absolute b.y).text] ++ blending)⟩

/-- What asks for both extents has them written at full scale. -/
theorem Params.front_asked {q : Params} {size : Size} (hwidth : q.width = some size.width)
    (hheight : q.height = some size.height) (hpositive : size.Positive) {natural : Size}
    {front : List String} (h : q.front (some natural) (1 : Rat) = .ok front) :
    ∃ padding, front = q.frontSegments (some size.width) (some size.height) padding := by
  have htarget : q.scaledTarget (some natural) (1 : Rat) =
      .ok (some size.width, some size.height) := by
    rw [Params.scaledTarget, if_pos (show ((1 : Rat) == 1) = true from rfl), hwidth, hheight,
      wanted_pos hpositive.width, wanted_pos hpositive.height]
  unfold Params.front at h
  obtain ⟨sizes, hsizes, h⟩ := of_bind_eq_ok h
  obtain rfl := Except.ok.inj (htarget.symm.trans hsizes)
  obtain ⟨padding, -, h⟩ := of_bind_eq_ok h
  cases h
  exact ⟨padding, rfl⟩

/-- A layer with extents and coordinates of its own is written with them. -/
theorem Layer.Occupies.places {l : Layer} {b : Box} (h : l.Occupies b) {canvas : Option Size}
    {f : Filter} (hf : l.filter canvas (1 : Rat) = .ok f) : f.Places b := by
  have hrendered : l.props.rendered Rat l.state.params canvas =
      .ok { l.state.params.withoutIdentity with proportion := none } := by
    have hunbound : l.state.params.withoutIdentity.Unbound :=
      ⟨h.unbound.widthFull, h.unbound.heightFull⟩
    have hwidth : Params.wanted l.state.params.withoutIdentity.width = some b.size.width :=
      (congrArg Params.wanted h.width).trans (Params.wanted_pos h.positive.width)
    unfold LayerProps.rendered
    rw [hunbound.resolveFill_eq]
    simp only [hwidth]
    rfl
  rw [Layer.filter_eq] at hf
  unfold LayerProps.filter at hf
  rw [hrendered] at hf
  obtain ⟨q, hq, hf⟩ := of_bind_eq_ok hf
  obtain rfl := Except.ok.inj hq
  obtain ⟨size, -, hf⟩ := of_bind_eq_ok hf
  obtain ⟨sub, hsub, hf⟩ := of_bind_eq_ok hf
  rw [h.x, h.y] at hf
  cases hf
  obtain ⟨front, inside, fs, hfront, -, -, rfl⟩ := Params.path_eq_ok hsub
  obtain ⟨padding, rfl⟩ := Params.front_asked h.width h.height h.positive hfront
  exact ⟨_, padding, fs, l.props.imagePath, _, rfl⟩

/-- The filter of a layer that shows is in the chain. -/
theorem Encoding.Writes.exists_filter {c : Encoding Rat} {fs : List Filter}
    {inside : Option Size} (h : c.Writes fs) (hinside : c.inside = .ok inside)
    (hoptions : c.options = { scale := 1 }) {l : Layer} (hl : l ∈ c.state.layerList)
    (hvisible : l.props.visible = true) : ∃ f ∈ fs, l.filter inside (1 : Rat) = .ok f := by
  have himages := h.images hinside (by rw [hoptions])
  rw [hoptions] at himages
  obtain ⟨f, hf, hfilter⟩ := mem_layerFilters himages hl hvisible
  exact ⟨f, List.mem_of_mem_filter hf, hfilter⟩

/-- A layer as large as a canvas, in its corner. -/
def cover (canvas : Size) : Layer where
  props :=
    { id := "cover", imagePath := "cover.png", originalDimensions := canvas
      x := .absolute (.int 0), y := .absolute (.int 0) }
  transforms := some ⟨{ width := some canvas.width, height := some canvas.height }, none⟩

theorem occupies_cover {canvas : Size} (h : canvas.Positive) :
    (cover canvas).Occupies ⟨canvas, .int 0, .int 0⟩ :=
  ⟨⟨fun hfull => (by cases hfull), fun hfull => (by cases hfull)⟩, rfl, rfl, h, rfl, rfl⟩

/-- A layer within a canvas is within another one exactly if that is as large, up to a pixel. -/
theorem boxes_on_iff {canvas shown : Size} (hcanvas : canvas.Positive) :
    (∀ (l : Layer) (b : Box), l.Occupies b → b.On canvas 0 → b.On shown 1) ↔
      canvas.width ≤ shown.width + 1 ∧ canvas.height ≤ shown.height + 1 := by
  constructor
  · intro h
    -- Nothing takes more room than a layer as large as the canvas.
    have hon : Box.On ⟨canvas, .int 0, .int 0⟩ canvas 0 :=
      ⟨by simp [Number.exact], by simp [Number.exact], by simp [Number.exact],
        by simp [Number.exact]⟩
    obtain ⟨-, -, hright, hbottom⟩ := h _ _ (occupies_cover hcanvas) hon
    simp only [Number.exact, Int.cast_zero, zero_add] at hright hbottom
    exact ⟨by exact_mod_cast hright, by exact_mod_cast hbottom⟩
  · rintro ⟨hwidth, hheight⟩ l b - ⟨hleft, htop, hright, hbottom⟩
    have hwidth : (canvas.width : Rat) ≤ shown.width + 1 := by exact_mod_cast hwidth
    have hheight : (canvas.height : Rat) ≤ shown.height + 1 := by exact_mod_cast hheight
    exact ⟨hleft, htop, by linarith, by linarith⟩

/-! ## Thumbnails -/

/-- Whether settings give an image a size: it is asked for, and neither fitting in nor padding
    makes another one of it. -/
structure Params.Sizes (p : Params) (size : Size) : Prop where
  width : p.width = some size.width
  height : p.height = some size.height
  positive : size.Positive
  fitIn : p.fitIn ≠ some true
  padded : ∀ s, p.padded s = s

theorem Params.Sizes.output_eq {p : Params} {size : Size} (h : p.Sizes size) (natural : Size) :
    p.output Rat natural none = .ok (p.turned size) := by
  have htarget : p.target none = (some size.width, some size.height) := by
    rw [Settled.target (.inl rfl), h.width, h.height, wanted_pos h.positive.width,
      wanted_pos h.positive.height]
  have hresized : p.resized Rat natural none = .ok size := by
    unfold resized
    simp only [htarget, if_neg h.fitIn]
    rfl
  rw [Params.output_eq hresized, h.padded]

namespace Editor

section

variable (e : Editor) (width height : Option Int)

/-- The settings of a thumbnail. -/
def thumbnailParams : Params :=
  (thumbnailState e.root e.settings width height).params

/-- The encoding of a thumbnail. -/
def thumbnailEncoding (α : Type) [Scalar α] : Encoding α :=
  ⟨(thumbnailState e.root e.settings width height).withoutIdentity, e.imagePath, some e.size,
    { scale := 1 }, false, none⟩

/-- A thumbnail is asked for by the path that this encoding makes. -/
theorem thumbnailAsk_eq : thumbnailAsk width height e =
    (do return ⟨e.imagePath, ← (e.thumbnailEncoding width height Float).path⟩) := rfl

/-- The image of the root is fitted into the size of the thumbnail, and turned as it is in the
    composition. -/
theorem output_thumbnail (hsource : (e.root.params.source e.size).Positive)
    (hpadded : ∀ s, e.root.params.padded s = s) :
    ∃ size, (e.thumbnailParams width height).output Rat e.size none =
        .ok (e.root.params.turned size) ∧
      (e.root.params.source e.size).FittedIn ((e.thumbnailParams width height).target none)
        size := by
  refine ⟨_, ?_, hsource.fittedIn _⟩
  have hresized := Params.resized_fitted (p := e.thumbnailParams width height) none rfl hsource
  rw [Params.output_eq hresized]
  exact congrArg (fun s => Except.ok (e.root.params.turned s)) (hpadded _)

/-- **A thumbnail shows the composition only if it is as large.**  The composition and its thumbnail
    write a layer that does not follow its canvas by one filter, and a layer with a box of its own
    into this box.  So whatever lies within the composition lies within the thumbnail up to a
    pixel exactly if the thumbnail is at most a pixel smaller, and it is no larger than what is
    asked of it, nor than the image of the root.  This is in exact arithmetic: both canvases and the
    filters are computed with rational numbers, and not with doubles. -/
theorem thumbnail_shows {size : Size} (hroot : e.root.params.Sizes size) :
    ∃ canvas shown fs gs,
      e.root.params.output Rat e.size none = .ok canvas ∧
      (e.thumbnailParams width height).output Rat e.size none = .ok shown ∧
      (e.baseEncoding Rat).Writes fs ∧ (e.thumbnailEncoding width height Rat).Writes gs ∧
      (∀ l ∈ e.root.layerList, l.props.visible = true → l.state.params.Unbound →
        ∃ f ∈ fs, f ∈ gs ∧ l.filter (some shown) (1 : Rat) = .ok f ∧
          ∀ b, l.Occupies b → f.Places b) ∧
      ((∀ (l : Layer) (b : Box), l.Occupies b → b.On canvas 0 → b.On shown 1) ↔
        canvas.width ≤ shown.width + 1 ∧ canvas.height ≤ shown.height + 1) ∧
      ((e.root.params.source e.size).Positive → ∃ fitted, shown = e.root.params.turned fitted ∧
        (e.root.params.source e.size).FittedIn ((e.thumbnailParams width height).target none)
          fitted) := by
  have hcanvas := hroot.output_eq e.size
  obtain ⟨shown, hshown⟩ := (e.thumbnailParams width height).succeeds_output e.size none
  obtain ⟨fs, hfs⟩ := (e.baseEncoding Rat).exists_writes
  obtain ⟨gs, hgs⟩ := (e.thumbnailEncoding width height Rat).exists_writes
  have hinside : (e.baseEncoding Rat).inside = .ok (some (e.root.params.turned size)) :=
    congrArg (some <$> ·) hcanvas
  have hinside' : (e.thumbnailEncoding width height Rat).inside = .ok (some shown) :=
    congrArg (some <$> ·) hshown
  refine ⟨_, shown, fs, gs, hcanvas, hshown, hfs, hgs, ?layers,
    boxes_on_iff ((Size.positive_turned e.root.params).mpr hroot.positive), fun hsource => ?fitted⟩
  case layers =>
    intro l hl hvisible hunbound
    obtain ⟨f, hf, hfilter⟩ := hfs.exists_filter hinside rfl hl hvisible
    obtain ⟨g, hg, hfilter'⟩ := hgs.exists_filter hinside' rfl hl hvisible
    -- The canvases differ, but the layer follows neither.
    have hsame := Layer.filter_unbound hunbound (some (e.root.params.turned size)) (some shown)
      (1 : Rat)
    obtain rfl := Except.ok.inj (hfilter.symm.trans (hsame.trans hfilter'))
    exact ⟨f, hf, hg, hfilter', fun b hb => hb.places hfilter'⟩
  case fitted =>
    obtain ⟨fitted, hfitted, hin⟩ := e.output_thumbnail width height hsource hroot.padded
    exact ⟨fitted, Except.ok.inj (hshown.symm.trans hfitted), hin⟩

end

/-- A photo that is covered by a poster of its size. -/
def postered : Editor :=
  { start {} "photo.jpg" ⟨400, 400⟩ none with
    root := ⟨{ width := some 400, height := some 400 }, some [cover ⟨400, 400⟩]⟩ }

/-- On the thumbnail the poster is as large as on the photo, so most of it is beyond the edges. -/
theorem thumbnail_shows_postered :
    postered.root.params.Sizes ⟨400, 400⟩ ∧
      (postered.thumbnailParams none none).output Rat ⟨400, 400⟩ none = .ok ⟨200, 200⟩ ∧
      (∃ f gs, (postered.thumbnailEncoding none none Rat).Writes gs ∧ f ∈ gs ∧
        f.Places ⟨⟨400, 400⟩, .int 0, .int 0⟩) ∧
      ¬ ∀ (l : Layer) (b : Box), l.Occupies b → b.On ⟨400, 400⟩ 0 → b.On ⟨200, 200⟩ 1 := by
  have hroot : postered.root.params.Sizes ⟨400, 400⟩ :=
    ⟨rfl, rfl, ⟨by decide, by decide⟩, by decide, fun _ => rfl⟩
  have hthumbnail : (postered.thumbnailParams none none).output Rat ⟨400, 400⟩ none =
      .ok ⟨200, 200⟩ := of_toOption_eq_some (by decide +kernel)
  obtain ⟨canvas, shown, fs, gs, hcanvas, hshown, -, hgs, hlayers, hiff, -⟩ :=
    thumbnail_shows postered none none hroot
  obtain rfl : (⟨400, 400⟩ : Size) = canvas := Except.ok.inj hcanvas
  obtain rfl : (⟨200, 200⟩ : Size) = shown := Except.ok.inj (hthumbnail.symm.trans hshown)
  have hcover := @occupies_cover ⟨400, 400⟩ ⟨by decide, by decide⟩
  obtain ⟨f, -, hf, -, hplaces⟩ :=
    hlayers (cover ⟨400, 400⟩) List.mem_cons_self rfl hcover.unbound
  refine ⟨hroot, hthumbnail, ⟨f, gs, hgs, hf, hplaces _ hcover⟩, fun h => ?_⟩
  exact absurd (hiff.mp h).1 (by decide)

end Editor

end Retouch
