/-
  What a drag on screen does to a layer.

  The rectangle of a layer on a preview is brought to canvas pixels. Without its padding and
  rotation it gives the wanted size of the layer. An axis that is not centered gets a position
  that is anchored on the same side as before: a coordinate, the side when it is flush, or the
  side with an offset when it lies beyond.
-/
import Retouch.Geometry.Rect

namespace Retouch

section

variable {α : Type} [Scalar α]

/-- The size of the image in a displayed rectangle: without padding, if a fill color is set, and
turned back. -/
def imageSize (width height : α) (padding : Sides α) (rotation : Option Int) (filled : Bool) :
    α × α :=
  let pad := padding.turn rotation
  let w := if filled then width - pad.left - pad.right else width
  let h := if filled then height - pad.top - pad.bottom else height
  if exchangesAxes rotation then (h, w) else (w, h)

end

/-- What a drag changes about a layer. -/
structure LayerMove where
  x : Option Position
  y : Option Position
  width : Int
  height : Int
  deriving DecidableEq

namespace LayerMove

/-- Whether a position takes part in a drag: it is there and not centered. -/
def isDraggable : Option Position → Bool
  | none | some .centered => false
  | some _ => true

/-- Whether a position is anchored at the far side of its axis. -/
def isFarAnchored (far : Side) : Position → Bool
  | .absolute px => px.isNegative
  | .aligned side _ => side = far
  | .centered => false

/-- The position of an extent at a canvas coordinate, anchored as before. -/
def anchored (coordinate extent canvas : Int) (current : Position) (near far : Side) : Position :=
  if isFarAnchored far current then
    let beyond := coordinate + extent - canvas
    -- Flush with the far side is beyond it by nothing; a negative coordinate counts from there.
    if 0 ≤ beyond then .aligned far beyond.toNat else .absolute (.int beyond)
  else if coordinate < 0 then .aligned near (-coordinate).toNat
  else .absolute (.int coordinate)

/-- The entries that update a layer. -/
def updates (m : LayerMove) : Entries :=
  (match m.x with
    | some p => [("x", p.write)]
    | none => []) ++
  (match m.y with
    | some p => [("y", p.write)]
    | none => []) ++
  [("transforms", .object [("width", .int m.width), ("height", .int m.height)])]

end LayerMove

section

variable {α : Type} [Scalar α]

/-- A length on a preview of extent `shown`, in pixels of a canvas. -/
def toCanvas (length shown : α) (canvas : Int) : Except Failure Int := do
  let part ← (Scalar.divide length shown : Except Number.Fault α)
  Scalar.round (part * (← (Scalar.ofWhole canvas : Except Number.Fault α)))

/-- The wanted size of a layer that covers `width` and `height` canvas pixels. -/
def wantedSize (width height : Int) (padding : Sides α) (rotation : Option Int) (filled : Bool) :
    Except Failure (Int × Int) := do
  if filled then
    let across : α ← (Scalar.ofWhole width : Except Number.Fault α)
    let down : α ← (Scalar.ofWhole height : Except Number.Fault α)
    let (w, h) := imageSize across down padding rotation true
    return (max 1 (← Scalar.trunc w), max 1 (← Scalar.trunc h))
  else if exchangesAxes rotation then return (max 1 height, max 1 width)
  else return (max 1 width, max 1 height)

/-- What a drag to a rectangle on a preview does to a layer. The padding may be in other numbers
than the preview: whole pixels, say, on a preview that is scaled by a fraction. -/
def drag {β : Type} [Scalar β] (display : Rect α) (shownWidth shownHeight : α) (canvas : Size)
    (padding : Sides β) (rotation : Option Int) (x y : Option Position) (filled : Bool) :
    Except Failure LayerMove := do
  let width ← toCanvas display.width shownWidth canvas.width
  let height ← toCanvas display.height shownHeight canvas.height
  let (w, h) ← wantedSize width height padding rotation filled
  let x' ←
    match x with
    | some p =>
      if LayerMove.isDraggable x then do
        let left ← toCanvas display.x shownWidth canvas.width
        pure (some (LayerMove.anchored left width canvas.width p .left .right))
      else pure none
    | none => pure none
  let y' ←
    match y with
    | some p =>
      if LayerMove.isDraggable y then do
        let top ← toCanvas display.y shownHeight canvas.height
        pure (some (LayerMove.anchored top height canvas.height p .top .bottom))
      else pure none
    | none => pure none
  return ⟨x', y', w, h⟩

end

end Retouch
