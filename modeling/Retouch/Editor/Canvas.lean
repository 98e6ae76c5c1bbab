/-
  Sizes and paths of what is being edited.

  A layer lies on the canvas that the image below it renders to, which may itself be a layer. The
  path of a layer on its own shows it as the composition does. A preview is scaled down to fit its
  bounds. Sizes are computed over any `Scalar`. Main fact: at the root there is no canvas below
  (`canvasBelow_nil`).
-/
import Retouch.Editor.Basic
import Retouch.Path.Encode

namespace Retouch

/-! ## Canvases -/

section

variable (α : Type) [Scalar α]

/-- The canvas of an image with a size on a canvas below, and from there along a path up to the
canvas that its last layer lies on. -/
def State.canvasAlong (s : State) (size : Size) (below : Option Size) :
    List String → Except Failure Size
  | [] => s.params.output α size below
  | [_] => s.params.output α size below
  | id :: rest => do
    let canvas ← s.params.output α size below
    match s.child? id with
    | none => .error .noParts
    | some l => l.state.canvasAlong l.props.originalDimensions (some canvas) rest

/-- The canvas that the layer at a path lies on, none at the root. -/
def State.canvasBelow (root : State) (size : Size) (path : List String) :
    Except Failure (Option Size) :=
  if path.isEmpty then .ok none else some <$> root.canvasAlong α size none path

end

theorem canvasBelow_nil (α : Type) [Scalar α] (root : State) (size : Size) :
    root.canvasBelow α size [] = .ok none := rfl

section

variable {α : Type} [Scalar α]

/-- The factor that brings a state on a canvas down to the bounds of its preview. -/
def State.previewScale (s : State) (natural : Size) (canvas bounds : Option Size) :
    Except Failure α :=
  match bounds with
  | none => .ok 1
  | some b => do
    let size ← s.params.output α natural canvas
    -- A preview is never enlarged.
    if size.width ≤ b.width ∧ size.height ≤ b.height then return 1
    else
      let across ← (Scalar.quotient b.width size.width : Except Number.Fault α)
      let down ← (Scalar.quotient b.height size.height : Except Number.Fault α)
      return Scalar.min across down

end

namespace Editor

/-! ## What is being edited -/

/-- The canvas that the layer being edited lies on. -/
def canvas (e : Editor) : Except Failure (Option Size) :=
  e.root.canvasBelow Float e.size e.path

/-- The rendered size of what is being edited. -/
def outputSize (e : Editor) : Except Failure Size := do
  let s ← e.current
  if e.path.isEmpty then s.params.canvasOutput Float e.size none
  else
    let size ← e.currentSize
    s.params.output Float size (← e.canvas)

/-- The path of what is being edited. -/
def currentPath (e : Editor) (forPreview : Bool) : Except Failure String := do
  let s ← e.current
  -- A crop that is being edited is drawn over the uncropped image.
  let s := if forPreview && e.visualCrop then s.withoutCrop else s
  let size ← e.currentSize
  let canvas ← e.canvas
  let s := s.resolveFill canvas
  let scale : Float ← if forPreview then s.previewScale size canvas e.bounds else .ok 1
  let options : EncodeOptions Float :=
    { forPreview, previewFormat := e.settings.previewFormat, scale }
  s.path (← e.currentImage) (some size) options false none

/-- The path of a state of the base image. -/
def basePath (e : Editor) (s : State) (extraFilters : List Filter) : Except Failure String :=
  s.withoutIdentity.path e.imagePath (some e.size) { scale := (1 : Float), extraFilters } false
    none

/-! ## What URLs are asked for -/

/-- What the preview shows. -/
def previewAsk (e : Editor) : Except Failure Ask := do
  let path ← e.currentPath true
  return ⟨← e.currentImage, path⟩

/-- The complete composition. -/
def copyAsk (e : Editor) : Except Failure Ask := do
  return ⟨e.imagePath, ← e.basePath e.root []⟩

/-- The complete composition as a file to keep. -/
def downloadAsk (e : Editor) : Except Failure Ask := do
  return ⟨e.imagePath, ← e.basePath e.root [⟨"attachment", ""⟩]⟩

/-- A state as a thumbnail: fitted into a size, in a small format. -/
def thumbnailState (s : State) (settings : Settings) (width height : Option Int) : State :=
  { s with
    params :=
      { s.params with
        width := some ((Params.wanted width).getD settings.thumbnailSize)
        height := some ((Params.wanted height).getD settings.thumbnailSize)
        fitIn := some true
        stretch := none
        format := some "webp"
        quality := some settings.thumbnailQuality
        maxBytes := none } }

/-- A small rendering of the complete composition. -/
def thumbnailAsk (width height : Option Int) (e : Editor) : Except Failure Ask := do
  return ⟨e.imagePath, ← e.basePath (thumbnailState e.root e.settings width height) []⟩

end Editor

end Retouch
