/-
  Snapping of dragged rectangles and edges.

  On each axis a rectangle snaps to an edge of the canvas that is nearer than a threshold, else to
  the middle when its middle is nearer than a percentage of the canvas. Thresholds are strict, and
  of two edges the nearer wins, the first if they are equally near.
-/
import Retouch.Geometry.Rect

namespace Retouch

/-- What an axis has snapped to. -/
inductive SnapTarget where
  | start | center | finish
  deriving DecidableEq, Repr

/-- The name of a target. -/
def SnapTarget.name : SnapTarget → String
  | .start => "start"
  | .center => "center"
  | .finish => "end"

section

variable {α : Type} [Scalar α]

/-- How near things have to be to snap. -/
structure SnapRange (α : Type) where
  /-- The distance to an edge in pixels. -/
  edge : α
  /-- The distance to the middle in percent of the canvas. -/
  center : α

/-- Snaps an extent at a coordinate on one axis. -/
def snapAxis (range : SnapRange α) (position extent canvas : α) : α × Option SnapTarget :=
  let first := Scalar.abs position
  let last := Scalar.abs (position + extent - canvas)
  if first < range.edge ∨ last < range.edge then
    if first ≤ last then (0, some .start) else (canvas - extent, some .finish)
  else
    let middle := Scalar.abs (position + extent * Scalar.half - canvas * Scalar.half)
    if middle < canvas * range.center / 100 then
      ((canvas - extent) * Scalar.half, some .center)
    else (position, none)

/-- A snapped corner and what each axis has snapped to. -/
structure Snapped (α : Type) where
  x : α
  y : α
  targetX : Option SnapTarget
  targetY : Option SnapTarget

/-- Snaps a rectangle on both axes. -/
def snapRect (range : SnapRange α) (r : Rect α) (canvasWidth canvasHeight : α) : Snapped α :=
  let (x, targetX) := snapAxis range r.x r.width canvasWidth
  let (y, targetY) := snapAxis range r.y r.height canvasHeight
  ⟨x, y, targetX, targetY⟩

/-- Snaps one moving edge to the bounds of the canvas; says whether it did. -/
def snapEdge (threshold value canvas : α) : α × Bool :=
  let first := Scalar.abs value
  let last := Scalar.abs (value - canvas)
  if first < threshold ∧ first ≤ last then (0, true)
  else if last < threshold then (canvas, true)
  else (value, false)

end

end Retouch
