/-
  States written as request paths.

  A path lists what is to be done to an image: the crop, the fit, the wanted size with minus signs
  for mirroring, the padding, the alignment, the chain of filters, and last the image. A layer is
  a filter whose first argument is a path of its own, with explicit size, so paths nest as the
  layers do. Everything counted in pixels is multiplied by the scale of the options. Sizes are
  computed over any `Scalar`.
-/
import Retouch.Output
import Retouch.Path.Escape
import Retouch.Path.Filter

namespace Retouch

/-- How a number is written in a path: a whole double without fraction. -/
def Number.pathText (n : Number) : String :=
  match n.normalize with
  | .int k => Number.intText k
  | .float x => Number.Layout.plain.text x

/-- The choices for one encoding. -/
structure EncodeOptions (α : Type) where
  /-- Whether the path is for a preview, whose format replaces that of the state. -/
  forPreview : Bool := false
  previewFormat : String := "webp"
  scale : α
  /-- Filters that stand behind all others but the proportion. -/
  extraFilters : List Filter := []

section

variable {α : Type} [Scalar α]

/-! ## Filters of one image -/

/-- A double scaled to two places, or unchanged at scale one. -/
def scaledDouble (x : Float) (scale : α) : Float :=
  if scale == 1 then x else Number.roundHundredths (x * Scalar.toDouble scale)

/-- A filter for a double that is set and not zero. -/
def amountFilter (name : String) (amount : Option Float) (f : Float → Float) : List Filter :=
  match amount with
  | some x => if x == 0.0 then [] else [⟨name, (Number.float (f x)).pathText⟩]
  | none => []

/-- A filter without arguments for a mark that is set. -/
def markFilter (name : String) (mark : Option Bool) : List Filter :=
  if mark = some true then [⟨name, ""⟩] else []

/-- A filter for a whole number that is set and not zero. -/
def countFilter (name : String) (count : Option Int) : List Filter :=
  match Params.wanted count with
  | some n => [⟨name, Number.intText n⟩]
  | none => []

/-- A filter for a text that is set and not empty. -/
def wordFilter (name : String) (word : Option String) : List Filter :=
  match word with
  | some s => if s.isEmpty then [] else [⟨name, s⟩]
  | none => []

/-- A radius scaled to at least one pixel. -/
def cornerFilter (radius : Option Int) (scale : α) : Except Failure (List Filter) :=
  match Params.wanted radius with
  | none => .ok []
  | some r => do
    let n ← Scalar.scaleRound r scale
    return [⟨"round_corner", Number.intText (max 1 n)⟩]

/-- The filters that stand before those of the layers. -/
def Params.frontFilters (p : Params) (scale : α) : Except Failure (List Filter) := do
  let corner ← cornerFilter p.roundCornerRadius scale
  return amountFilter "brightness" p.brightness id ++ amountFilter "contrast" p.contrast id ++
    amountFilter "saturation" p.saturation id ++ amountFilter "hue" p.hue id ++
    markFilter "grayscale" p.grayscale ++ amountFilter "blur" p.blur (scaledDouble · scale) ++
    amountFilter "sharpen" p.sharpen (scaledDouble · scale) ++ corner ++
    (match p.fillColor with
      | some color => [⟨"fill", color⟩]
      | none => []) ++
    countFilter "rotate" p.rotation

/-- The filters that stand behind those of the layers; a layer has none. -/
def Params.backFilters (p : Params) (o : EncodeOptions α) : List Filter :=
  (if o.forPreview then [⟨"format", o.previewFormat⟩]
    else
      wordFilter "format" p.format ++ countFilter "quality" p.quality ++
        countFilter "max_bytes" p.maxBytes) ++
    markFilter "strip_icc" p.stripIcc ++ markFilter "strip_exif" p.stripExif ++
    markFilter "strip_metadata" p.stripMetadata ++ o.extraFilters ++
    (match p.activeProportion with
      | some x => [⟨"proportion", (Number.float x).pathText⟩]
      | none => [])

/-- The chain of an image, with the filters of its layers in the middle. -/
def Params.filters (p : Params) (o : EncodeOptions α) (isLayer : Bool)
    (inner : Except Failure (List Filter)) : Except Failure (List Filter) := do
  let front ← p.frontFilters o.scale
  let middle ← inner
  return front ++ middle ++ (if isLayer then [] else p.backFilters o)

/-! ## Segments of one image -/

/-- The segment of the crop. -/
def Params.cropSegment (p : Params) : List String :=
  match p.cropLeft, p.cropTop, p.cropWidth, p.cropHeight with
  | some left, some top, some width, some height =>
    [Number.intText left ++ "x" ++ Number.intText top ++ ":" ++
      Number.intText (left + width) ++ "x" ++ Number.intText (top + height)]
  | _, _, _, _ => []

/-- An extent scaled to at least one pixel. -/
def scaledExtent (scale : α) (extent : Option Int) : Except Failure (Option Int) :=
  match Params.wanted extent with
  | none => .ok none
  | some n => do return some (max 1 (← Scalar.scaleRound n scale))

/-- The wanted size at a scale. Away from scale one an image without wanted size gets its own. -/
def Params.scaledTarget (p : Params) (natural : Option Size) (scale : α) :
    Except Failure (Option Int × Option Int) :=
  let width := wanted p.width
  let height := wanted p.height
  if scale == 1 then .ok (width, height)
  else if width.isNone && height.isNone then
    match natural with
    | none => .ok (none, none)
    | some size => do
      let resized ← p.resized α size none
      return (← scaledExtent scale (some resized.width), ← scaledExtent scale (some resized.height))
  else do return (← scaledExtent scale width, ← scaledExtent scale height)

/-- The padding at a scale, none if it is zero on all sides. -/
def Params.scaledPadding (p : Params) (scale : α) : Except Failure (Option (Sides Int)) :=
  if p.hasFill then do
    let pad := p.padding
    let left ← Scalar.scaleRound pad.left scale
    let top ← Scalar.scaleRound pad.top scale
    let right ← Scalar.scaleRound pad.right scale
    let bottom ← Scalar.scaleRound pad.bottom scale
    -- Padding can vanish at a small scale.
    if left = 0 ∧ top = 0 ∧ right = 0 ∧ bottom = 0 then return none
    else return some ⟨left, top, right, bottom⟩
  else .ok none

/-- An extent in a path, zero if there is none, with a minus sign for mirroring. -/
def extentText (mirrored : Option Bool) (extent : Option Int) : String :=
  (if mirrored = some true then "-" else "") ++ Number.intText (extent.getD 0)

/-- The segment of the size; it is there if a size, mirroring or padding is. -/
def Params.sizeSegment (p : Params) (width height : Option Int) (padding : Option (Sides Int)) :
    List String :=
  if width.isSome || height.isSome || p.hFlip = some true || p.vFlip = some true ||
      padding.isSome then
    [extentText p.hFlip width ++ "x" ++ extentText p.vFlip height]
  else []

/-- The segment of the padding, shortened if it is symmetric. -/
def paddingSegment (padding : Option (Sides Int)) : List String :=
  match padding with
  | none => []
  | some pad =>
    let near := Number.intText pad.left ++ "x" ++ Number.intText pad.top
    if pad.left = pad.right ∧ pad.top = pad.bottom then [near]
    else [near ++ ":" ++ Number.intText pad.right ++ "x" ++ Number.intText pad.bottom]

/-- A segment for a word that is set and not empty. -/
def wordSegment (word : Option String) : List String :=
  match word with
  | some s => if s.isEmpty then [] else [s]
  | none => []

/-- The segments of the alignment; an image that is fitted in has none. -/
def Params.alignSegments (p : Params) : List String :=
  if p.fitIn = some true then [] else wordSegment p.hAlign ++ wordSegment p.vAlign

/-- The segments before the filters. -/
def Params.frontSegments (p : Params) (width height : Option Int) (padding : Option (Sides Int)) :
    List String :=
  p.cropSegment ++ (if p.fitIn = some true then ["fit-in"] else []) ++
    (if p.stretch = some true then ["stretch"] else []) ++ p.sizeSegment width height padding ++
    paddingSegment padding ++ p.alignSegments ++ (if p.smart = some true then ["smart"] else [])

/-- The segment of the filters. -/
def filterSegment (fs : List Filter) : List String :=
  if fs.isEmpty then [] else [Filter.chainWord ++ Filter.chainText fs]

/-- The path of an image. The filters of its layers come from `inner`, which is told the size of
the canvas: the one given, or else the rendered size of the image. -/
def Params.path (p : Params) (imagePath : String) (natural : Option Size) (o : EncodeOptions α)
    (isLayer : Bool) (canvas : Option Size)
    (inner : Option Size → Except Failure (List Filter)) : Except Failure String := do
  let (width, height) ← p.scaledTarget natural o.scale
  let padding ← p.scaledPadding o.scale
  let canvas ←
    match canvas, natural with
    | none, some size => some <$> p.output α size none
    | c, _ => pure c
  let fs ← p.filters o isLayer (inner canvas)
  return String.intercalate "/"
    (p.frontSegments width height padding ++ filterSegment fs ++ [ImagePath.encode imagePath])

/-! ## Layers -/

/-- A position at a scale. The magnitude of a coordinate is scaled and gets its sign back, so it
counts from the same edge unless it is rounded to nothing. -/
def Position.scaled (position : Position) (scale : α) : Except Failure Position :=
  match position with
  | .absolute px =>
    if scale == 1 then .ok position
    else do
      let x : α ← px.toScalar
      -- Rounding the magnitude lets mirrored coordinates round alike.
      if 0 ≤ x then return .absolute (.int (← Scalar.round (x * scale)))
      else return .absolute (.int (-(← Scalar.round (-x * scale))))
  | p => .ok p

/-- The settings that a layer is rendered with: axes in pixels, and always a size. -/
def LayerProps.rendered (α : Type) [Scalar α] (l : LayerProps) (p : Params)
    (canvas : Option Size) : Except Failure Params := do
  let p := p.withoutIdentity.resolveFill canvas
  if (Params.wanted p.width).isNone && (Params.wanted p.height).isNone then
    let size ← p.resized α l.originalDimensions none
    return { p with width := some size.width, height := some size.height, proportion := none }
  else return { p with proportion := none }

/-- The filter of a layer with given settings; `inner` gives the filters of its own layers on the
canvas that it is told. -/
def LayerProps.filter (l : LayerProps) (p : Params) (canvas : Option Size) (scale : α)
    (inner : Option Size → Except Failure (List Filter)) : Except Failure Filter := do
  let p ← l.rendered α p canvas
  -- Layers on this one lie on what it renders to, at full scale.
  let size ← p.output α l.originalDimensions canvas
  let sub ← p.path l.imagePath (some l.originalDimensions) { scale } true (some size) inner
  let x ← l.x.scaled scale
  let y ← l.y.scaled scale
  let blending :=
    if l.alpha = 0 ∧ l.blend = .normal then [] else [Number.intText l.alpha, l.blend.name]
  return ⟨"image", String.intercalate "," (["/" ++ sub, x.text, y.text] ++ blending)⟩

mutual

/-- The filter of a layer on a canvas. -/
def Layer.filter (canvas : Option Size) (scale : α) : Layer → Except Failure Filter
  | ⟨l, some ⟨p, some ls⟩⟩ =>
    l.filter p canvas scale fun inside => layerFilters inside scale ls
  | ⟨l, some ⟨p, none⟩⟩ => l.filter p canvas scale fun _ => .ok []
  | ⟨l, none⟩ => l.filter {} canvas scale fun _ => .ok []

/-- The filters of the layers that show, from bottom to top. -/
def layerFilters (canvas : Option Size) (scale : α) : List Layer → Except Failure (List Filter)
  | [] => .ok []
  | l :: ls =>
    if l.props.visible then do
      let f ← l.filter canvas scale
      let fs ← layerFilters canvas scale ls
      return f :: fs
    else layerFilters canvas scale ls

end

/-! ## Whole states -/

/-- The chain of filters of a state on a canvas. -/
def State.filters (s : State) (canvas : Option Size) (o : EncodeOptions α) (isLayer : Bool) :
    Except Failure (List Filter) :=
  s.params.filters o isLayer (layerFilters canvas o.scale s.layerList)

/-- The path of a state. -/
def State.path (s : State) (imagePath : String) (natural : Option Size) (o : EncodeOptions α)
    (isLayer : Bool) (canvas : Option Size) : Except Failure String :=
  s.params.path imagePath natural o isLayer canvas fun inside =>
    layerFilters inside o.scale s.layerList

end

end Retouch
