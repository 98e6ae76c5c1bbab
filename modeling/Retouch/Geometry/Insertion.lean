/-
  Where a new layer goes.

  A new layer fills at most a fraction of the area that is in view, without being enlarged, and
  stands at the corner or in the middle of it. On a zoomed preview the area is found in preview
  pixels and the result is brought to output pixels.
-/
import Retouch.Geometry.Rect

namespace Retouch

/-- Where a new layer stands in an area. -/
inductive Corner where
  | topLeft | center
  deriving DecidableEq, Repr

/-- The choice with a name, the corner for any other. -/
def Corner.ofName (name : String) : Corner :=
  if name = "center" then .center else .topLeft

section

variable {α : Type} [Scalar α]

/-- The part of a scrolled preview that is on screen. -/
structure Viewport (α : Type) where
  scrollLeft : α
  scrollTop : α
  clientWidth : α
  clientHeight : α
  /-- The size of the preview. -/
  image : Size

/-- The fraction of the area that a new layer fills. -/
def defaultFraction : α := Scalar.ofDouble 0.9

/-- The least part of a preview that counts as in view. -/
def leastVisible : α := Scalar.ofDouble 0.3

/-- The part of the preview in view. The preview lies in the middle of a space twice its size. -/
def Viewport.visible (v : Viewport α) : Except Failure (Rect α) := do
  let width : α ← (Scalar.ofWhole v.image.width : Except Number.Fault α)
  let height : α ← (Scalar.ofWhole v.image.height : Except Number.Fault α)
  let offsetX := width * Scalar.half
  let offsetY := height * Scalar.half
  let left := Scalar.max 0 (v.scrollLeft - offsetX)
  let top := Scalar.max 0 (v.scrollTop - offsetY)
  let right := Scalar.min width (v.scrollLeft + v.clientWidth - offsetX)
  let bottom := Scalar.min height (v.scrollTop + v.clientHeight - offsetY)
  return ⟨left, top, Scalar.max 0 (right - left), Scalar.max 0 (bottom - top)⟩

/-- A scalar over a whole number. -/
def overWhole (a : α) (n : Int) : Except Failure α := do
  (Scalar.divide a (← (Scalar.ofWhole n : Except Number.Fault α)) : Except Number.Fault α)

/-- The size of a layer that fits into a fraction of an area. -/
def sizeInArea (layer : Size) (area : Rect α) (fraction : α) : Except Failure Size := do
  let across ← overWhole (area.width * fraction) layer.width
  let down ← overWhole (area.height * fraction) layer.height
  let scale := Scalar.min (Scalar.min across down) 1
  return ⟨← Scalar.scaleRound layer.width scale, ← Scalar.scaleRound layer.height scale⟩

/-- The corner of a layer in an area. -/
def cornerInArea (area : Rect α) (layer : Size) (corner : Corner) : Except Failure (α × α) :=
  match corner with
  | .topLeft => .ok (area.x, area.y)
  | .center => do
    let width : α ← (Scalar.ofWhole layer.width : Except Number.Fault α)
    let height : α ← (Scalar.ofWhole layer.height : Except Number.Fault α)
    return (area.x + (area.width - width) * Scalar.half,
      area.y + (area.height - height) * Scalar.half)

/-- A length times a scale, in whole pixels. -/
def wholePixels (length scale : α) : Except Failure α := do
  (Scalar.ofWhole (← Scalar.round (length * scale)) : Except Number.Fault α)

/-- A rectangle of a preview in output pixels. -/
def toOutput (r : Rect α) (preview output : Size) : Except Failure (Rect α) := do
  let scaleX : α ← (Scalar.quotient output.width preview.width : Except Number.Fault α)
  let scaleY : α ← (Scalar.quotient output.height preview.height : Except Number.Fault α)
  return ⟨← wholePixels r.x scaleX, ← wholePixels r.y scaleY, ← wholePixels r.width scaleX,
    ← wholePixels r.height scaleY⟩

/-- The area of a new layer and the fraction of it to fill: what is in view, or all. -/
def insertionArea (output : Size) (viewport : Option (Viewport α)) (fraction : α) :
    Except Failure (Rect α × α) :=
  match viewport with
  | some v => do
    let area ← v.visible
    let across ← overWhole area.width v.image.width
    let down ← overWhole area.height v.image.height
    return (area, fraction * Scalar.max leastVisible (Scalar.min across down))
  | none => do
    let width : α ← (Scalar.ofWhole output.width : Except Number.Fault α)
    let height : α ← (Scalar.ofWhole output.height : Except Number.Fault α)
    return (⟨0, 0, width, height⟩, fraction)

/-- Where a new layer goes, in output pixels. -/
def insertion (layer output : Size) (viewport : Option (Viewport α)) (fraction : α)
    (corner : Corner) : Except Failure (Rect α) := do
  let (area, share) ← insertionArea output viewport fraction
  let size ← sizeInArea layer area share
  let (x, y) ← cornerInArea area size corner
  let width : α ← (Scalar.ofWhole size.width : Except Number.Fault α)
  let height : α ← (Scalar.ofWhole size.height : Except Number.Fault α)
  match viewport with
  | some v => toOutput ⟨x, y, width, height⟩ v.image output
  | none => return ⟨x, y, width, height⟩

end

end Retouch
