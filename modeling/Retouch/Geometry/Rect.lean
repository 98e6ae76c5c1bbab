/-
  Rectangles, and where a layer is drawn on its canvas.

  A coordinate that counts from the far edge is measured from there to the far edge of the layer.
  A word for the other axis, or no position at all, leaves a layer at a fallback. Padding turns
  with its image. Main fact: four quarter turns bring padding back (`turn_four_quarters`).
-/
import Retouch.State.Basic

namespace Retouch

/-- A rectangle in pixels of a screen or a canvas. -/
structure Rect (α : Type) where
  x : α
  y : α
  width : α
  height : α
  deriving DecidableEq, Inhabited

section

variable {α : Type} [Scalar α]

/-- The right edge. -/
def Rect.right (r : Rect α) : α := r.x + r.width

/-- The bottom edge. -/
def Rect.bottom (r : Rect α) : α := r.y + r.height

/-! ## Placing -/

/-- The coordinate of the near edge of a layer of extent `extent` on a canvas, on the axis with
the given sides. -/
def Position.resolve (position : Option Position) (extent canvas : α) (near far : Side)
    (fallback : α) : Except Failure α :=
  match position with
  | some (.absolute px) => do
    let x : α ← px.toScalar
    return if px.isNegative then canvas + x - extent else x
  | some .centered => .ok ((canvas - extent) * Scalar.half)
  | some (.aligned side outside) =>
    if side = near then do return -(← (Scalar.ofWhole outside : Except Number.Fault α))
    else if side = far then do
      return canvas - extent + (← (Scalar.ofWhole outside : Except Number.Fault α))
    else .ok fallback
  | none => .ok fallback

/-- Where a layer is drawn: its near corner in pixels and in percent of the canvas. -/
structure Placement (α : Type) where
  left : α
  top : α
  leftPercent : α
  topPercent : α

/-- A part in percent of a whole, zero of nothing. -/
def percent (part whole : α) : α :=
  if whole == 0 then 0 else part / whole * 100

/-- Where a layer is drawn on a canvas. -/
def placement (x y : Option Position) (width height canvasWidth canvasHeight fallbackLeft
    fallbackTop : α) : Except Failure (Placement α) := do
  let left ← Position.resolve x width canvasWidth .left .right fallbackLeft
  let top ← Position.resolve y height canvasHeight .top .bottom fallbackTop
  return ⟨left, top, percent left canvasWidth, percent top canvasHeight⟩

end

/-! ## Turning padding -/

/-- Padding of an image as it lies on the canvas after a clockwise rotation. -/
def Sides.turn {α : Type} (s : Sides α) (rotation : Option Int) : Sides α :=
  if rotation = some 90 then ⟨s.top, s.right, s.bottom, s.left⟩
  else if rotation = some 180 then ⟨s.right, s.bottom, s.left, s.top⟩
  else if rotation = some 270 then ⟨s.bottom, s.left, s.top, s.right⟩
  else s

theorem turn_four_quarters {α : Type} (s : Sides α) :
    (((s.turn (some 90)).turn (some 90)).turn (some 90)).turn (some 90) = s := rfl

/-- Whether a rotation exchanges the axes. -/
def exchangesAxes (rotation : Option Int) : Bool :=
  rotation = some 90 || rotation = some 270

end Retouch
