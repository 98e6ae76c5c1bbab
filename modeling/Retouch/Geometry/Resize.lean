/-
  Resizing a rectangle by a handle.

  The pointer moves the edges of the handle. Under an aspect ratio one extent drives the other:
  the width for the handles at the left and right, the height for those at the top and bottom, at
  a corner the one that changed more. Moving edges snap to the canvas, and a snapped extent drives
  again. Last both extents are raised to a minimum. The edges opposite the handle stay.
-/
import Retouch.Geometry.Snap

namespace Retouch

/-- A handle of a rectangle, by compass direction. -/
inductive Handle where
  | n | ne | e | se | s | sw | w | nw
  deriving DecidableEq, Repr

namespace Handle

/-- All handles with their names. -/
def named : List (String × Handle) :=
  [("n", .n), ("ne", .ne), ("e", .e), ("se", .se), ("s", .s), ("sw", .sw), ("w", .w),
    ("nw", .nw)]

/-- The handle with a name. -/
def ofName? (name : String) : Option Handle := named.lookup name

/-- Whether the handle moves the top edge. -/
def movesTop : Handle → Bool
  | .n | .ne | .nw => true
  | _ => false

/-- Whether the handle moves the bottom edge. -/
def movesBottom : Handle → Bool
  | .s | .se | .sw => true
  | _ => false

/-- Whether the handle moves the left edge. -/
def movesLeft : Handle → Bool
  | .w | .sw | .nw => true
  | _ => false

/-- Whether the handle moves the right edge. -/
def movesRight : Handle → Bool
  | .e | .se | .ne => true
  | _ => false

end Handle

section

variable {α : Type} [Scalar α]

/-- Which extent drives the other under an aspect ratio. -/
inductive Drive where
  | width | height
  deriving DecidableEq, Repr

/-- The driving extent when a handle makes `start` so wide and high. -/
def Handle.drive (h : Handle) (start : Rect α) (width height : α) : Drive :=
  match h with
  | .e | .w => .width
  | .n | .s => .height
  | _ =>
    if Scalar.abs (height - start.height) < Scalar.abs (width - start.width) then .width
    else .height

/-- Both extents under a ratio, from the driving one. -/
def Drive.derive (d : Drive) (width height ratio : α) : α × α :=
  match d with
  | .width => (width, width / ratio)
  | .height => (height * ratio, height)

/-- A corner and extents while a rectangle is resized. -/
abbrev Handle.anchor (h : Handle) (start r : Rect α) : Rect α :=
  { r with
    x := if h.movesLeft || h == .n then start.right - r.width else r.x
    y := if h.movesTop || h == .w then start.bottom - r.height else r.y }

/-- The rectangle after the pointer moved, before ratio, snapping and minimum. -/
def Handle.pull (h : Handle) (start : Rect α) (dx dy : α) : Rect α :=
  { x := if h.movesLeft then start.x + dx else start.x
    y := if h.movesTop then start.y + dy else start.y
    width :=
      if h.movesRight then start.width + dx
      else if h.movesLeft then start.width - dx else start.width
    height :=
      if h.movesBottom then start.height + dy
      else if h.movesTop then start.height - dy else start.height }

/-- Brings a rectangle to a ratio by a driving extent, if there is a ratio. -/
def Handle.conform (h : Handle) (start : Rect α) (ratio : Option α) (d : Drive) (r : Rect α) :
    Rect α :=
  match ratio with
  | none => r
  | some a =>
    let (width, height) := d.derive r.width r.height a
    h.anchor start { r with width, height }

/-- Snaps the moving edge of the horizontal axis; says whether it did. -/
def Handle.snapAcross (h : Handle) (threshold : α) (canvas : Option α) (r : Rect α) :
    Rect α × Bool :=
  match canvas with
  | none => (r, false)
  | some c =>
    if h.movesRight then
      let (right, snapped) := snapEdge threshold (r.x + r.width) c
      ({ r with width := right - r.x }, snapped)
    else if h.movesLeft then
      let right := r.x + r.width
      let (x, snapped) := snapEdge threshold r.x c
      ({ r with x, width := right - x }, snapped)
    else (r, false)

/-- Snaps the moving edge of the vertical axis; says whether it did. -/
def Handle.snapDown (h : Handle) (threshold : α) (canvas : Option α) (r : Rect α) :
    Rect α × Bool :=
  match canvas with
  | none => (r, false)
  | some c =>
    if h.movesBottom then
      let (bottom, snapped) := snapEdge threshold (r.y + r.height) c
      ({ r with height := bottom - r.y }, snapped)
    else if h.movesTop then
      let bottom := r.y + r.height
      let (y, snapped) := snapEdge threshold r.y c
      ({ r with y, height := bottom - y }, snapped)
    else (r, false)

/-- Raises the width to a minimum, the height with it under a ratio. -/
def Handle.widen (h : Handle) (start : Rect α) (ratio : Option α) (least : α) (r : Rect α) :
    Rect α :=
  if r.width < least then
    let height :=
      match ratio with
      | some a => least / a
      | none => r.height
    h.anchor start { r with width := least, height }
  else r

/-- Raises the height to a minimum, the width with it under a ratio. -/
def Handle.heighten (h : Handle) (start : Rect α) (ratio : Option α) (least : α) (r : Rect α) :
    Rect α :=
  if r.height < least then
    let width :=
      match ratio with
      | some a => least * a
      | none => r.width
    h.anchor start { r with width, height := least }
  else r

/-- What bounds a resize. -/
structure ResizeBounds (α : Type) where
  /-- Width over height, if it is kept. -/
  ratio : Option α := none
  canvasWidth : Option α := none
  canvasHeight : Option α := none
  threshold : α
  least : α

/-- The rectangle after a handle was dragged. -/
def Handle.resize (h : Handle) (start : Rect α) (dx dy : α) (b : ResizeBounds α) : Rect α :=
  -- A ratio of zero means that none is kept.
  let ratio := b.ratio.filter fun a => !(a == 0)
  let pulled := h.pull start dx dy
  let d := h.drive start pulled.width pulled.height
  let r := h.conform start ratio d pulled
  let (r, acrossSnapped) := h.snapAcross b.threshold b.canvasWidth r
  let (r, downSnapped) := h.snapDown b.threshold b.canvasHeight r
  let r :=
    if acrossSnapped || downSnapped then
      -- If both edges snapped, the extent that drove before drives again.
      let d' := if acrossSnapped && (d == .width || !downSnapped) then .width else .height
      h.conform start ratio d' r
    else r
  h.heighten start ratio b.least (h.widen start ratio b.least r)

end

end Retouch
