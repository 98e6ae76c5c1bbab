/-
  The size of what an image becomes.

  A crop comes first, then the resize to the wanted size, then padding if there is a fill color,
  then a quarter turn that exchanges the axes, and for the whole canvas the proportion. Sizes are
  computed over any `Scalar`. Main facts: without a wanted size nothing is resized
  (`resized_of_no_target`), and a half turn keeps the size (`output_rotation_half`).
-/
import Retouch.State.Merge

namespace Retouch

namespace Params

/-- The size that enters the resize: the crop, or the image. -/
def source (p : Params) (natural : Size) : Size :=
  match p.cropLeft, p.cropTop, p.cropWidth, p.cropHeight with
  | some _, some _, some width, some height => ⟨width, height⟩
  | _, _, _, _ => natural

/-- A wanted extent; zero means none. -/
def wanted (extent : Option Int) : Option Int :=
  extent.filter (· ≠ 0)

/-- An extent that follows the canvas below by an inset, at least one pixel. -/
def filled (canvas inset : Int) : Int :=
  max 1 (canvas - inset)

/-- The wanted size on each axis; an axis that follows the canvas below is resolved against it. -/
def target (p : Params) (canvas : Option Size) : Option Int × Option Int :=
  let width :=
    match p.widthFull, canvas with
    | some true, some c => some (filled c.width (p.widthFullOffset.getD 0))
    | _, _ => wanted p.width
  let height :=
    match p.heightFull, canvas with
    | some true, some c => some (filled c.height (p.heightFullOffset.getD 0))
    | _, _ => wanted p.height
  (width, height)

/-- The settings with the axes that follow the canvas below replaced by pixels. -/
def resolveFill (p : Params) (canvas : Option Size) : Params :=
  if (p.widthFull = some true ∨ p.heightFull = some true) ∧ canvas.isSome then
    let (width, height) := p.target canvas
    { p with
      width, height
      widthFull := none, widthFullOffset := none
      heightFull := none, heightFullOffset := none }
  else p

end Params

section

variable (α : Type) [Scalar α]

/-- The scale that fits `source` into the target without enlarging it. -/
def fitScale (source : Size) (width height : Option Int) : Except Failure α := do
  let across ← width.mapM fun w => (Scalar.quotient w source.width : Except Number.Fault α)
  let down ← height.mapM fun h => (Scalar.quotient h source.height : Except Number.Fault α)
  let scale :=
    match across, down with
    | some a, some d => Scalar.min a d
    | some a, none => a
    | none, some d => d
    | none, none => 1
  return Scalar.min scale 1

/-- The size after the crop and the resize. -/
def Params.resized (p : Params) (natural : Size) (canvas : Option Size) : Except Failure Size :=
  let source := p.source natural
  match p.target canvas with
  | (none, none) => .ok source
  | (width, height) =>
    if p.fitIn = some true then
      -- A source without extent cannot be scaled into anything.
      if source.width ≤ 0 ∨ source.height ≤ 0 then .ok source
      else do
        let scale ← fitScale α source width height
        return ⟨← Scalar.scaleRound source.width scale, ← Scalar.scaleRound source.height scale⟩
    -- Without fitting in, an axis that is not wanted keeps its extent.
    else .ok ⟨width.getD source.width, height.getD source.height⟩

/-- A size with the padding added, if there is a fill color. -/
def Params.padded (p : Params) (s : Size) : Size :=
  if p.hasFill then
    let pad := p.padding
    ⟨s.width + (pad.left + pad.right), s.height + (pad.top + pad.bottom)⟩
  else s

/-- A size turned by the rotation. -/
def Params.turned (p : Params) (s : Size) : Size :=
  if p.rotation = some 90 ∨ p.rotation = some 270 then s.swapped else s

/-- The rendered size, apart from the proportion. -/
def Params.output (p : Params) (natural : Size) (canvas : Option Size) : Except Failure Size := do
  let resized ← p.resized α natural canvas
  return p.turned (p.padded resized)

/-- The proportion in percent, unless it changes nothing. -/
def Params.activeProportion (p : Params) : Option Float :=
  p.proportion.filter fun x => x != 0.0 && x != 100.0

/-- The rendered size of the whole canvas, proportion included. -/
def Params.canvasOutput (p : Params) (natural : Size) (canvas : Option Size) :
    Except Failure Size := do
  let size ← p.output α natural canvas
  match p.activeProportion with
  | none => return size
  | some x =>
    let factor ← (Scalar.divide (Scalar.ofDouble x) 100 : Except Number.Fault α)
    return ⟨← Scalar.scaleRound size.width factor, ← Scalar.scaleRound size.height factor⟩

/-- The rendered size of a layer on its canvas; without settings it is that of its image. -/
def layerOutput (natural : Size) (params : Option Params) (canvas : Option Size) :
    Except Failure Size :=
  match params with
  | none => .ok natural
  | some p => p.output α natural canvas

end

/-- The state with the axes that follow the canvas below replaced by pixels. -/
def State.resolveFill (s : State) (canvas : Option Size) : State :=
  { s with params := s.params.resolveFill canvas }

/-! ## Following the canvas below -/

/-- An axis of an image. -/
inductive Axis where
  | horizontal | vertical
  deriving DecidableEq, Repr

namespace Axis

/-- The field of the wanted extent on an axis. -/
def extentField : Axis → Field
  | .horizontal => .width
  | .vertical => .height

/-- The field that says whether an axis follows the canvas below. -/
def fullField : Axis → Field
  | .horizontal => .widthFull
  | .vertical => .heightFull

/-- The field of the inset on an axis. -/
def insetField : Axis → Field
  | .horizontal => .widthFullOffset
  | .vertical => .heightFullOffset

/-- The axis with the name of its extent. -/
def ofName? (name : String) : Option Axis :=
  if name = "width" then some .horizontal else if name = "height" then some .vertical else none

end Axis

/-- The changes that switch an axis between pixels and following the canvas below. The visible
size stays: it becomes an inset, or the inset becomes pixels. -/
def toggleFill (axis : Axis) (full : Bool) (canvas current inset : Int) : Changes :=
  if full then
    [(axis.fullField, .bool false), (axis.insetField, .null),
      (axis.extentField, .int (Params.filled canvas inset))]
  else
    [(axis.fullField, .bool true), (axis.insetField, .int (max 0 (canvas - current))),
      (axis.extentField, .null)]

/-- An inset that leaves at least one pixel of the canvas. -/
def clampInset (inset canvas : Int) : Int :=
  min (max 0 inset) (canvas - 1)

/-- The greater of zero and a number, zero unless the number exceeds it. -/
def Number.orZero : Number → Number
  | .int n => .int (max 0 n)
  | .float x => if 0.0 < x then .float x else .int 0

/-- Turns the extent that entries give for one axis into an inset. -/
def Entries.extentToInset (axis : Axis) (canvas : Int) (es : Entries) : Except Failure Entries :=
  match es.lookup axis.extentField.key with
  | none | some .null => .ok es
  | some v =>
    match v.number? with
    | none => .error .wrongType
    | some n => do
      let inset ← (Number.int canvas).sub n
      return ((es.put axis.fullField.spelled (.bool true)).erase axis.extentField.key).put
        axis.insetField.spelled (.ofNumber inset.orZero)

/-- Entries from a resize on screen, with insets on the axes that follow the canvas below. -/
def Entries.insets (es : Entries) (current : Params) (canvas : Size) :
    Except Failure Entries := do
  let es ← if current.widthFull = some true then es.extentToInset .horizontal canvas.width
    else .ok es
  if current.heightFull = some true then es.extentToInset .vertical canvas.height else .ok es

/-! ## Laws -/

/-- Without a wanted size nothing is resized. -/
theorem resized_of_no_target (α : Type) [Scalar α] (p : Params) (natural : Size)
    (canvas : Option Size) (h : p.target canvas = (none, none)) :
    p.resized α natural canvas = .ok (p.source natural) := by
  simp [Params.resized, h]

/-- A half turn keeps the size. -/
theorem output_rotation_half (α : Type) [Scalar α] (p : Params) (natural : Size)
    (canvas : Option Size) (h : p.rotation = some 180) :
    p.output α natural canvas = (p.resized α natural canvas).map p.padded := by
  simp only [Params.output, Params.turned, h]
  cases p.resized α natural canvas <;> rfl

end Retouch
