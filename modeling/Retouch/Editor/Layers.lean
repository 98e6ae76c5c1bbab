/-
  Changes of the layers of what is being edited.

  Adding, removing and copying a layer can be undone at once; updates and a new order join other
  changes that come in quick succession. Operations on a layer that is not there change nothing.
-/
import Retouch.Editor.Params

namespace Retouch.Editor

/-- Puts a layer on top of the others. -/
def addLayer (document : Value) : Edit Layer := do
  let l ← Edit.check (Layer.check document)
  Edit.recordBy History.checkpoint
  updateLayers (· ++ [l])
  changed
  return l

/-- Takes a layer away, if it is there. -/
def removeLayer (id : String) : Edit Unit := do
  match ← Edit.view (·.contextLayer? id) with
  | none => return
  | some _ =>
    Edit.recordBy History.checkpoint
    updateLayers fun ls => ls.filter (·.id ≠ id)
    Edit.change fun e => if e.selected = some id then { e with selected := none } else e
    changed

/-- The name of a copy. -/
def copyName (name : String) : String := name ++ " Copy"

/-- A copy of a layer under a new id; coordinates are moved so that it shows. -/
def copyOf (l : Layer) (id : String) (offset : Int) : Except Failure Layer := do
  let x ← l.props.x.shift (.int offset)
  let y ← l.props.y.shift (.int offset)
  return { l with props := { l.props with id, name := copyName l.props.name, x, y } }

/-- Puts a copy of a layer with all that is on it on top of the others, if the layer is there. -/
def duplicateLayer (id : String) : Edit (Option Layer) := do
  match ← Edit.view (·.contextLayer? id) with
  | none => return none
  | some l =>
    -- The id is issued also if the copy cannot be moved.
    let fresh ← Edit.check Check.freshId
    let copy ← Edit.view fun e => copyOf l fresh e.settings.duplicateOffsetPx
    Edit.recordBy History.checkpoint
    updateLayers (· ++ [copy])
    changed
    return some copy

/-- Updates of a layer: new values for what it is, and for its settings. -/
structure LayerUpdates where
  value : Value
  /-- Whether the settings take the place of those of the layer. -/
  replace : Bool := false
  /-- Whether the settings are validated as a whole state beforehand. -/
  validated : Bool := false

/-- The state that updates give for the settings, if it is validated beforehand. -/
def LayerUpdates.presetState (u : LayerUpdates) : Check (Option (List Field × State)) := do
  if u.validated then
    match Entries.lookup "transforms" (← Check.lift u.value.entries?) with
    | none | some .null => return none
    | some v => return some (← State.readGiven v)
  else return none

/-- The settings that a layer gets: those given, merged into its own or in place of them. -/
def newTransforms (l : Layer) (v : Value) (preset : Option (List Field × State))
    (replace : Bool) : Edit State := do
  match l.transforms, replace with
  | some s, false =>
    let changes ←
      match preset with
      | some (fields, t) => pure (Changes.ofState fields t)
      | none => Edit.view fun _ => Changes.ofObject v
    return (← Edit.check (s.merged changes)).withoutIdentity
  | _, _ =>
    match preset with
    | some (_, t) => return t.withoutIdentity
    | none => return (← Edit.check (Updates.state { value := v })).withoutIdentity

/-- The layer with updates; its id stays. -/
def updatedLayer (l : Layer) (u : LayerUpdates) (preset : Option (List Field × State)) :
    Edit Layer := do
  let es ← Edit.view fun _ => u.value.entries?
  -- A layer keeps its id, whatever updates say.
  let es := es.erase "id"
  let props := es.erase "transforms"
  let updated ← if props.isEmpty then pure l else Edit.check (l.merged props)
  match es.lookup "transforms" with
  | none => return updated
  -- Null takes the settings away altogether.
  | some .null => return { updated with transforms := none }
  | some v =>
    let s ← newTransforms l v preset u.replace
    return { updated with transforms := some s }

/-- Updates a layer, if it is there. -/
def updateLayer (id : String) (u : LayerUpdates) (recorded : Bool) : Edit Unit := do
  let preset ← Edit.check u.presetState
  match ← Edit.view (·.contextLayer? id) with
  | none => return
  | some l =>
    let updated ← updatedLayer l u preset
    if recorded then Edit.recordBy History.record
    replaceLayer id fun _ => updated
    changed

/-- The last layer with an id. -/
def lastWithId? (layers : List Layer) (id : String) : Option Layer :=
  layers.reverse.find? (·.id = id)

/-- The ids of layers, each once. -/
def distinctIds (layers : List Layer) : List String :=
  (layers.map Layer.id).eraseDups

/-- Layers in a new order, given by the id of each exactly once. -/
def reordered (layers : List Layer) (ids : List String) : Except Failure (List Layer) :=
  if ids.isPerm (distinctIds layers) then .ok (ids.filterMap (lastWithId? layers))
  else .error (.value .orderMismatch)

/-- Brings the layers into a new order, from bottom to top. -/
def reorder (ids : List String) : Edit Unit := do
  let layers ← Edit.view fun e => do reordered (← e.current).layerList ids
  Edit.recordBy History.record
  updateLayers fun _ => layers
  changed

/-- Selects a layer of the context, or none. -/
def select (id : Option String) : Edit Unit := do
  match id with
  | none => pure ()
  | some id =>
    match ← Edit.view (·.contextLayer? id) with
    | none => Edit.fail (.layerMissing (.inContext id))
    | some _ => pure ()
  Edit.change fun e => { e with selected := id }

end Retouch.Editor
