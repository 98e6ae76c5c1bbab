/-
  What is asked of an image, and the layers on top of it.

  `Params` are the settings of one image, all optional; unset means that nothing is done. A
  `State` is the settings of an image with its layers, a `Layer` an image placed on the canvas
  below it, which may have a state of its own: the two form a tree. `Field` names the parts of a
  state, with the key that each has in a document and a second spelling.
-/
import Retouch.Blend
import Retouch.Position
import Retouch.Size

namespace Retouch

/-! ## Settings of one image -/

/-- The settings of one image. -/
structure Params where
  /-- The image the settings are for; only at the root of a tree. -/
  imagePath : Option String := none
  /-- The size of that image; only at the root of a tree. -/
  originalDimensions : Option Size := none
  /-- The wanted output width. -/
  width : Option Int := none
  /-- The wanted output height. -/
  height : Option Int := none
  /-- Whether the width follows the canvas below. -/
  widthFull : Option Bool := none
  /-- How much narrower than that canvas. -/
  widthFullOffset : Option Int := none
  /-- Whether the height follows the canvas below. -/
  heightFull : Option Bool := none
  /-- How much lower than that canvas. -/
  heightFullOffset : Option Int := none
  /-- Whether the image is stretched to the wanted size. -/
  stretch : Option Bool := none
  /-- Whether the image is fitted into the wanted size without enlarging it. -/
  fitIn : Option Bool := none
  /-- Whether the focus of a crop is detected. -/
  smart : Option Bool := none
  /-- The horizontal alignment of a crop to the wanted size. -/
  hAlign : Option String := none
  /-- The vertical alignment of a crop to the wanted size. -/
  vAlign : Option String := none
  brightness : Option Float := none
  contrast : Option Float := none
  saturation : Option Float := none
  hue : Option Float := none
  blur : Option Float := none
  sharpen : Option Float := none
  grayscale : Option Bool := none
  roundCornerRadius : Option Int := none
  hFlip : Option Bool := none
  vFlip : Option Bool := none
  /-- The clockwise rotation: 0, 90, 180 or 270 degrees. -/
  rotation : Option Int := none
  format : Option String := none
  quality : Option Int := none
  maxBytes : Option Int := none
  stripIcc : Option Bool := none
  stripExif : Option Bool := none
  stripMetadata : Option Bool := none
  /-- The crop rectangle; it counts when all four fields are set. -/
  cropLeft : Option Int := none
  cropTop : Option Int := none
  cropWidth : Option Int := none
  cropHeight : Option Int := none
  /-- Whether the crop is being edited by hand; never stored. -/
  visualCropEnabled : Option Bool := none
  /-- The color of the padding, without which there is none. -/
  fillColor : Option String := none
  paddingTop : Option Int := none
  paddingRight : Option Int := none
  paddingBottom : Option Int := none
  paddingLeft : Option Int := none
  /-- The scale of the whole canvas in percent. -/
  proportion : Option Float := none
  deriving DecidableEq, Inhabited

namespace Params

/-- Whether there is a crop: all four fields are set. -/
def hasCrop (p : Params) : Bool :=
  p.cropLeft.isSome && p.cropTop.isSome && p.cropWidth.isSome && p.cropHeight.isSome

/-- Whether there is padding: a fill color is set. -/
def hasFill (p : Params) : Bool :=
  p.fillColor.isSome

/-- The settings without a crop. -/
def withoutCrop (p : Params) : Params :=
  { p with cropLeft := none, cropTop := none, cropWidth := none, cropHeight := none }

/-- The settings without the image they are for. -/
def withoutIdentity (p : Params) : Params :=
  { p with imagePath := none, originalDimensions := none }

/-- The settings without the mark of editing the crop by hand. -/
def withoutVisualCrop (p : Params) : Params :=
  { p with visualCropEnabled := none }

end Params

/-- Amounts on the four sides of a rectangle. -/
structure Sides (α : Type) where
  left : α
  top : α
  right : α
  bottom : α
  deriving DecidableEq, Inhabited

/-- The amounts as a list: left, top, right, bottom. -/
def Sides.toList {α : Type} (s : Sides α) : List α := [s.left, s.top, s.right, s.bottom]

/-- The padding on each side, zero where unset. -/
def Params.padding (p : Params) : Sides Int :=
  ⟨p.paddingLeft.getD 0, p.paddingTop.getD 0, p.paddingRight.getD 0, p.paddingBottom.getD 0⟩

/-! ## The tree -/

/-- What a layer is apart from its settings. -/
structure LayerProps where
  id : String
  imagePath : String
  originalDimensions : Size
  x : Position := .centered
  y : Position := .centered
  /-- The transparency in percent. -/
  alpha : Int := 0
  blend : Blend := .normal
  visible : Bool := true
  name : String := "Layer"
  deriving DecidableEq, Inhabited

mutual

/-- The settings of an image and the layers on top of it, from bottom to top. -/
structure State where
  params : Params
  layers : Option (List Layer)

/-- An image on a canvas, with its settings if it has any. -/
structure Layer where
  props : LayerProps
  transforms : Option State

end

instance : Inhabited State := ⟨⟨{}, none⟩⟩
instance : Inhabited Layer := ⟨⟨default, none⟩⟩

namespace State

/-- The state in which nothing is asked for. -/
def empty : State := ⟨{}, none⟩

/-- The layers, none if unset. -/
def layerList (s : State) : List Layer := s.layers.getD []

/-- The state without a crop. -/
def withoutCrop (s : State) : State := { s with params := s.params.withoutCrop }

/-- The state without the image it is for. -/
def withoutIdentity (s : State) : State := { s with params := s.params.withoutIdentity }

/-- The state without the mark of editing the crop by hand. -/
def withoutVisualCrop (s : State) : State := { s with params := s.params.withoutVisualCrop }

end State

namespace Layer

/-- The id of a layer. -/
def id (l : Layer) : String := l.props.id

/-- The settings of a layer, those that ask for nothing if it has none. -/
def state (l : Layer) : State := l.transforms.getD .empty

/-- Whether a layer is opaque and combines in the normal way. -/
def isPlain (l : Layer) : Bool := l.props.alpha = 0 && l.props.blend = .normal

end Layer

/-! ## Fields -/

/-- A part of a state. -/
inductive Field where
  | imagePath | originalDimensions | width | height | widthFull | widthFullOffset | heightFull
  | heightFullOffset | stretch | fitIn | smart | hAlign | vAlign | brightness | contrast
  | saturation | hue | blur | sharpen | grayscale | roundCornerRadius | hFlip | vFlip | rotation
  | format | quality | maxBytes | stripIcc | stripExif | stripMetadata | cropLeft | cropTop
  | cropWidth | cropHeight | visualCropEnabled | fillColor | paddingTop | paddingRight
  | paddingBottom | paddingLeft | proportion | layers
  deriving DecidableEq, Repr

namespace Field

/-- All fields in the order in which they are written. -/
def all : List Field :=
  [.imagePath, .originalDimensions, .width, .height, .widthFull, .widthFullOffset, .heightFull,
    .heightFullOffset, .stretch, .fitIn, .smart, .hAlign, .vAlign, .brightness, .contrast,
    .saturation, .hue, .blur, .sharpen, .grayscale, .roundCornerRadius, .hFlip, .vFlip, .rotation,
    .format, .quality, .maxBytes, .stripIcc, .stripExif, .stripMetadata, .cropLeft, .cropTop,
    .cropWidth, .cropHeight, .visualCropEnabled, .fillColor, .paddingTop, .paddingRight,
    .paddingBottom, .paddingLeft, .proportion, .layers]

/-- The key of a field in a document. -/
def key : Field → String
  | .imagePath => "imagePath"
  | .originalDimensions => "originalDimensions"
  | .width => "width"
  | .height => "height"
  | .widthFull => "widthFull"
  | .widthFullOffset => "widthFullOffset"
  | .heightFull => "heightFull"
  | .heightFullOffset => "heightFullOffset"
  | .stretch => "stretch"
  | .fitIn => "fitIn"
  | .smart => "smart"
  | .hAlign => "hAlign"
  | .vAlign => "vAlign"
  | .brightness => "brightness"
  | .contrast => "contrast"
  | .saturation => "saturation"
  | .hue => "hue"
  | .blur => "blur"
  | .sharpen => "sharpen"
  | .grayscale => "grayscale"
  | .roundCornerRadius => "roundCornerRadius"
  | .hFlip => "hFlip"
  | .vFlip => "vFlip"
  | .rotation => "rotation"
  | .format => "format"
  | .quality => "quality"
  | .maxBytes => "maxBytes"
  | .stripIcc => "stripIcc"
  | .stripExif => "stripExif"
  | .stripMetadata => "stripMetadata"
  | .cropLeft => "cropLeft"
  | .cropTop => "cropTop"
  | .cropWidth => "cropWidth"
  | .cropHeight => "cropHeight"
  | .visualCropEnabled => "visualCropEnabled"
  | .fillColor => "fillColor"
  | .paddingTop => "paddingTop"
  | .paddingRight => "paddingRight"
  | .paddingBottom => "paddingBottom"
  | .paddingLeft => "paddingLeft"
  | .proportion => "proportion"
  | .layers => "layers"

/-- The second spelling of a key, words joined by underscores. -/
def spelled : Field → String
  | .imagePath => "image_path"
  | .originalDimensions => "original_dimensions"
  | .widthFull => "width_full"
  | .widthFullOffset => "width_full_offset"
  | .heightFull => "height_full"
  | .heightFullOffset => "height_full_offset"
  | .fitIn => "fit_in"
  | .hAlign => "h_align"
  | .vAlign => "v_align"
  | .roundCornerRadius => "round_corner_radius"
  | .hFlip => "h_flip"
  | .vFlip => "v_flip"
  | .maxBytes => "max_bytes"
  | .stripIcc => "strip_icc"
  | .stripExif => "strip_exif"
  | .stripMetadata => "strip_metadata"
  | .cropLeft => "crop_left"
  | .cropTop => "crop_top"
  | .cropWidth => "crop_width"
  | .cropHeight => "crop_height"
  | .visualCropEnabled => "visual_crop_enabled"
  | .fillColor => "fill_color"
  | .paddingTop => "padding_top"
  | .paddingRight => "padding_right"
  | .paddingBottom => "padding_bottom"
  | .paddingLeft => "padding_left"
  | f => f.key

/-- The field with a key in either spelling. -/
def ofKey? (key : String) : Option Field :=
  all.find? fun f => f.spelled = key || f.key = key

theorem ofKey?_key (f : Field) : ofKey? f.key = some f := by
  cases f <;> rfl

theorem ofKey?_spelled (f : Field) : ofKey? f.spelled = some f := by
  cases f <;> rfl

end Field

end Retouch
