/-
  States read from document values.

  Every field is optional and null means unset. Both spellings of a key are taken, the first one
  wins, and other keys are ignored. The image that settings are for is read at the root only: the
  settings of a layer never name one. Layers without an id get a fresh one.
-/
import Retouch.State.Basic

namespace Retouch

/-! ## Settings -/

/-- The value at a key in either spelling, with the spelling found. -/
def Entries.spelled? (first second : String) (es : Entries) : Option (String × Value) :=
  match es.lookup first with
  | some v => some (first, v)
  | none => (es.lookup second).map (second, ·)

/-- Reads an optional field. -/
def optionalField {α : Type} (es : Entries) (f : Field) (c : Value → Check α) :
    Check (Option α) :=
  match es.spelled? f.key f.spelled with
  | none => return none
  | some (_, .null) => return none
  | some (key, v) => Check.within (.key key) (some <$> c v)

/-- The whole number that a text writes in digits of any script. -/
def turnOfText? (text : String) : Option Int :=
  let (negative, r) := Number.takeSign (Text.trimBy Text.isBlank text.toList)
  match Convert.dropUnderscores? Text.isDecimalDigit r with
  | none => none
  | some ds =>
    if Number.digitLimit < ds.length then none
    else (Text.digitsValue? ds).map fun n => Number.signed negative n

/-- The clockwise turn with the same effect, from 0 to below 360 degrees. -/
def normalTurn? (n : Int) : Option Int :=
  if n % 90 = 0 then some (n % 360) else none

/-- A rotation: a multiple of 90 degrees, folded into one turn. Doubles lose their fraction, and
a list or an object is no rotation at all. -/
def Convert.rotation (v : Value) : Check Int :=
  match v with
  | .int n => fold (some n)
  | .bool b => fold (some (if b then 1 else 0))
  | .float x =>
    match Number.truncOf x with
    | .ok n => fold (some n)
    | .error .notANumber => Check.note .refused 0
    -- An infinity is not refused as a value: it ends the reading.
    | .error f => throw (.arithmetic f)
  | .text s => fold (turnOfText? s)
  | .rawText _ => Check.note .refused 0
  | _ => throw .wrongType
where
  fold (n : Option Int) : Check Int :=
    match n.bind normalTurn? with
    | some n => return n
    | none => Check.note .refused 0

/-- Reads settings; those of a layer (`inLayer`) name no image. -/
def Params.read (inLayer : Bool) (es : Entries) : Check Params := do
  -- The fields are read in the order in which their problems are reported.
  let imagePath ← if inLayer then pure none else optionalField es .imagePath Convert.text
  let originalDimensions ←
    if inLayer then pure none else optionalField es .originalDimensions Size.read
  let width ← optionalField es .width Convert.int
  let height ← optionalField es .height Convert.int
  let widthFull ← optionalField es .widthFull Convert.truth
  let widthFullOffset ← optionalField es .widthFullOffset Convert.int
  let heightFull ← optionalField es .heightFull Convert.truth
  let heightFullOffset ← optionalField es .heightFullOffset Convert.int
  let stretch ← optionalField es .stretch Convert.truth
  let fitIn ← optionalField es .fitIn Convert.truth
  let smart ← optionalField es .smart Convert.truth
  let hAlign ← optionalField es .hAlign Convert.text
  let vAlign ← optionalField es .vAlign Convert.text
  let brightness ← optionalField es .brightness Convert.double
  let contrast ← optionalField es .contrast Convert.double
  let saturation ← optionalField es .saturation Convert.double
  let hue ← optionalField es .hue Convert.double
  let blur ← optionalField es .blur Convert.double
  let sharpen ← optionalField es .sharpen Convert.double
  let grayscale ← optionalField es .grayscale Convert.truth
  let roundCornerRadius ← optionalField es .roundCornerRadius Convert.int
  let hFlip ← optionalField es .hFlip Convert.truth
  let vFlip ← optionalField es .vFlip Convert.truth
  let rotation ← optionalField es .rotation Convert.rotation
  let format ← optionalField es .format Convert.text
  let quality ← optionalField es .quality Convert.int
  let maxBytes ← optionalField es .maxBytes Convert.int
  let stripIcc ← optionalField es .stripIcc Convert.truth
  let stripExif ← optionalField es .stripExif Convert.truth
  let stripMetadata ← optionalField es .stripMetadata Convert.truth
  let cropLeft ← optionalField es .cropLeft Convert.int
  let cropTop ← optionalField es .cropTop Convert.int
  let cropWidth ← optionalField es .cropWidth Convert.int
  let cropHeight ← optionalField es .cropHeight Convert.int
  let visualCropEnabled ← optionalField es .visualCropEnabled Convert.truth
  let fillColor ← optionalField es .fillColor Convert.text
  let paddingTop ← optionalField es .paddingTop Convert.int
  let paddingRight ← optionalField es .paddingRight Convert.int
  let paddingBottom ← optionalField es .paddingBottom Convert.int
  let paddingLeft ← optionalField es .paddingLeft Convert.int
  let proportion ← optionalField es .proportion Convert.double
  return {
    imagePath, originalDimensions, width, height, widthFull, widthFullOffset, heightFull,
    heightFullOffset, stretch, fitIn, smart, hAlign, vAlign, brightness, contrast, saturation,
    hue, blur, sharpen, grayscale, roundCornerRadius, hFlip, vFlip, rotation, format, quality,
    maxBytes, stripIcc, stripExif, stripMetadata, cropLeft, cropTop, cropWidth, cropHeight,
    visualCropEnabled, fillColor, paddingTop, paddingRight, paddingBottom, paddingLeft, proportion
  }

/-! ## Layers -/

/-- Reads a required field in either spelling. -/
def requiredField {α : Type} [Inhabited α] (es : Entries) (first second : String)
    (c : Value → Check α) : Check α :=
  match es.spelled? first second with
  | some (key, v) => Check.within (.key key) (c v)
  | none => Check.within (.key first) (Check.note .missing default)

/-- Reads a field that has a default. -/
def fieldOr {α : Type} (es : Entries) (first second : String) (default : α)
    (c : Value → Check α) : Check α :=
  match es.spelled? first second with
  | some (key, v) => Check.within (.key key) (c v)
  | none => return default

/-- Reads a position. -/
def Position.check (v : Value) : Check Position :=
  match Position.read v with
  | .ok p => return p
  | .error _ => Check.note .refused .centered

/-- Reads a layer apart from its settings. -/
def LayerProps.read (es : Entries) : Check LayerProps := do
  -- The id is issued first, also for a layer that is refused later.
  let id ←
    match es.lookup "id" with
    | some v => Check.within (.key "id") (Convert.text v)
    | none => Check.freshId
  let imagePath ← requiredField es "imagePath" "image_path" Convert.text
  let originalDimensions ←
    requiredField es "originalDimensions" "original_dimensions" Size.read
  let x ← fieldOr es "x" "x" .centered Position.check
  let y ← fieldOr es "y" "y" .centered Position.check
  let alpha ← fieldOr es "alpha" "alpha" 0 (Convert.intBetween 0 100)
  let blend ← fieldOr es "blendMode" "blend_mode" .normal Blend.read
  let visible ← fieldOr es "visible" "visible" true Convert.truth
  let name ← fieldOr es "name" "name" "Layer" Convert.text
  return { id, imagePath, originalDimensions, x, y, alpha, blend, visible, name }

/-! ## The tree -/

mutual

/-- Reads a state from a value. -/
def State.check (inLayer : Bool) : Value → Check State
  | .object es => do
    let params ← Params.read inLayer es
    let layers ← checkLayersIn es
    return ⟨params, layers⟩
  | _ => Check.note .notObject .empty

/-- Reads the layers of a state from its entries. -/
def checkLayersIn : List (String × Value) → Check (Option (List Layer))
  | [] => return none
  | (k, v) :: es =>
    if k = "layers" then Check.within (.key "layers") (checkLayers v) else checkLayersIn es

/-- Reads a list of layers, null for none. -/
def checkLayers : Value → Check (Option (List Layer))
  | .null => return none
  | .list vs => some <$> checkItems 0 vs
  | _ => Check.note .notList none

/-- Reads the layers from the one with index `n` on. -/
def checkItems (n : Nat) : List Value → Check (List Layer)
  | [] => return []
  | v :: vs => do
    let layer ← Check.within (.index n) (Layer.check v)
    let rest ← checkItems (n + 1) vs
    return layer :: rest

/-- Reads a layer from a value. -/
def Layer.check : Value → Check Layer
  | .object es => do
    let props ← LayerProps.read es
    let transforms ← checkTransformsIn es
    return ⟨props, transforms⟩
  | _ => Check.note .notObject default

/-- Reads the settings of a layer from its entries. -/
def checkTransformsIn : List (String × Value) → Check (Option State)
  | [] => return none
  | (k, v) :: es =>
    if k = "transforms" then Check.within (.key "transforms") (checkTransforms v)
    else checkTransformsIn es

/-- Reads the settings of a layer, null for none. -/
def checkTransforms : Value → Check (Option State)
  | .null => return none
  | .object es => some <$> State.check true (.object es)
  | _ => Check.note .notObject none

end

end Retouch
