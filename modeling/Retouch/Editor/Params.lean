/-
  Changes of the settings of what is being edited.

  Changes to the wanted size can keep a ratio of width to height: the one captured when the lock
  was closed, else that of the wanted size, else that of the image.
-/
import Retouch.Editor.Basic

namespace Retouch

/-! ## The ratio of the sides -/

/-- The ratio of a width to a height, if both are set and not zero. -/
def Params.sizeRatio? (p : Params) : Except Failure (Option Float) :=
  match Params.wanted p.width, Params.wanted p.height with
  | some w, some h => do return some (← (Number.quotient w h : Except Number.Fault Float))
  | _, _ => .ok none

/-- The ratio that is kept. -/
def Editor.ratio (e : Editor) : Except Failure Float :=
  match e.lockedRatio.filter (· != 0.0) with
  | some r => .ok r
  | none => do
    match ← (← e.current).params.sizeRatio? with
    | some r => return r
    | none =>
      let size ← e.currentSize
      Number.quotient size.width size.height

/-- A numeric value as a double. -/
def Value.toDouble (v : Value) : Except Failure Float :=
  match v.number? with
  | some n => n.toDouble
  | none => .error .wrongType

/-- The extent nearest to a double, at least one pixel. -/
def extentOf (x : Float) : Except Failure Value := do
  return .int (max 1 (← Scalar.round x))

/-- Changes that set only one extent, completed with the other one by a ratio. -/
def Changes.keepRatio (cs : Changes) (ratio : Float) : Except Failure Changes :=
  match given cs .width, given cs .height with
  | some w, _ => do
    return cs.put .height (← extentOf (← Number.divide (← w.toDouble) ratio))
  | none, some h => do return cs.put .width (← extentOf ((← h.toDouble) * ratio))
  | none, none => .ok cs
where
  /-- The new value of a field that is not unset. -/
  given (cs : Changes) (f : Field) : Option Value := (cs.find? f).filter fun v => !v.isNull

namespace Editor

/-! ## Operations -/

/-- New values for some fields: as they come, or validated as a whole state beforehand. -/
structure Updates where
  value : Value
  validated : Bool := false

/-- The changes that updates give. -/
def Updates.changes (u : Updates) : Check Changes := do
  if u.validated then
    let (fields, s) ← State.readGiven u.value
    return Changes.ofState fields s
  else return Changes.ofEntries (← Check.lift u.value.entries?)

/-- Changes settings of what is being edited. `recorded` changes can be undone; `keepRatio` keeps
the ratio of the sides while the lock is closed. -/
def update (updates : Updates) (recorded keepRatio : Bool) : Edit Unit := do
  let changes ← Edit.check updates.changes
  match changes.find? .visualCropEnabled with
  | some v => Edit.change fun e => { e with visualCrop := v.isSomething }
  | none => pure ()
  -- The image belongs to the context; it is never changed by settings.
  let changes := ((changes.drop .visualCropEnabled).drop .imagePath).drop .originalDimensions
  let changes ← Edit.view fun e =>
    if keepRatio && e.aspectLocked then do changes.keepRatio (← e.ratio) else .ok changes
  -- The capture is taken before the merge, so it stays if the merge is refused.
  if recorded then Edit.recordBy History.record
  let s ← Edit.view current
  let merged ← Edit.check (s.merged changes)
  writeCurrent merged
  changed

/-- Reads the document of a state, which is an object unless it is `validated` beforehand. -/
def Updates.state (u : Updates) : Check State :=
  match u.value, u.validated with
  | .object es, _ => State.ofEntries es
  | v, true => State.ofDocument v
  | _, false => throw .noParts

/-- Replaces the state of what is being edited; this cannot be undone. At the root, a state that
names an image also changes the base image. -/
def restore (document : Updates) : Edit Unit := do
  let s ← Edit.check document.state
  let names :=
    match s.params.imagePath, s.params.originalDimensions with
    | some image, some size => if image.isEmpty then none else some (image, size)
    | _, _ => none
  match names with
  | some (imagePath, size) =>
    Edit.change fun e => if e.path.isEmpty then { e with imagePath, size } else e
  | none => pure ()
  Edit.change fun e => { e with visualCrop := s.params.visualCropEnabled = some true }
  writeCurrent s.withoutVisualCrop
  changed

/-- Clears all settings of what is being edited; layers stay. -/
def resetParams : Edit Unit := do
  Edit.recordBy History.checkpoint
  let s ← Edit.view current
  Edit.change fun e => { e with visualCrop := false }
  -- At the root the image is put back when the state is written.
  writeCurrent ⟨{}, s.layers⟩
  changed

/-- Opens or closes the lock on the ratio of the sides; says whether it is closed. -/
def toggleAspect : Edit Bool := do
  Edit.change fun e => { e with aspectLocked := !e.aspectLocked }
  let s ← Edit.view current
  let e ← Edit.view .ok
  if e.aspectLocked then
    match ← Edit.view fun _ => s.params.sizeRatio? with
    | some r => Edit.change fun e => { e with lockedRatio := some r }
    -- Without a wanted size no ratio is captured; it is taken from the image when needed.
    | none => pure ()
  else Edit.change fun e => { e with lockedRatio := none }
  return e.aspectLocked

end Editor

end Retouch
