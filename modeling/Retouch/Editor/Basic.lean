/-
  An editing session on a base image and its layers.

  The editor holds the complete tree, the context in which it is edited and the history. An
  operation is an `Edit`: it changes the editor step by step, collects what it asks for, and has a
  result or ends in a failure; what was changed before a failure stays changed. Main facts: reading
  and failing change nothing (`run_view`, `run_fail`).
-/
import Retouch.Context
import Retouch.History.Basic
import Retouch.Output
import Retouch.Preview.Basic
import Retouch.Settings

namespace Retouch

/-- An editing session. -/
structure Editor where
  settings : Settings
  /-- The base image and its size. -/
  imagePath : String
  size : Size
  /-- The greatest size of previews. -/
  bounds : Option Size
  /-- Whether there are observers. -/
  listening : Bool := false
  /-- The complete tree. -/
  root : State
  context : Context := .root
  /-- The selected layer of the context. -/
  selected : Option String := none
  /-- Whether the crop is being edited by hand. -/
  visualCrop : Bool := false
  aspectLocked : Bool := true
  /-- The ratio of width to height captured when the lock was closed. -/
  lockedRatio : Option Float := none
  history : History
  /-- How many ids of layers were issued. -/
  issued : Nat := 0

namespace Editor

/-- What an operation asks for, besides its result. -/
inductive Effect where
  /-- Observers are told the state of the context. -/
  | announce (s : State)
  | history (e : History.Effect)
  | preview (o : Preview.Order)

/-- The editor so far, and what was asked for so far. -/
structure Trace where
  editor : Editor
  effects : List Effect := []

end Editor

/-- An operation on the editor. -/
abbrev Edit := ExceptT Failure (StateM Editor.Trace)

/-- How an operation ended, and what it left. -/
structure Editor.Outcome (α : Type) where
  result : Except Failure α
  editor : Editor
  effects : List Editor.Effect

namespace Edit

variable {α : Type}

/-- Runs an operation. -/
def run (edit : Edit α) (e : Editor) : Editor.Outcome α :=
  let (result, t) := edit ⟨e, []⟩
  ⟨result, t.editor, t.effects⟩

/-- Reads something off the editor. -/
def view (f : Editor → Except Failure α) : Edit α := fun t => (f t.editor, t)

/-- Changes the editor. -/
def change (f : Editor → Editor) : Edit Unit := fun t =>
  (.ok (), { t with editor := f t.editor })

/-- Asks for something. -/
def ask (effects : List Editor.Effect) : Edit Unit := fun t =>
  (.ok (), { t with effects := t.effects ++ effects })

/-- Ends with a failure. -/
def fail (f : Failure) : Edit α := fun t => (.error f, t)

/-- Validates something; ids that were issued stay issued. -/
def check (c : Check α) : Edit α := fun t =>
  let (result, issued) := c.run t.editor.issued
  (result, { t with editor := { t.editor with issued } })

/-- Runs an operation on the history that has a result. -/
def rewind (f : History → State → α × History × List History.Effect) : Edit α := fun t =>
  let (a, history, effects) := f t.editor.history t.editor.root
  (.ok a, ⟨{ t.editor with history }, t.effects ++ effects.map .history⟩)

/-- Runs an operation on the history. -/
def recordBy (f : History → State → History × List History.Effect) : Edit Unit :=
  rewind fun h root => ((), f h root)

/-- Replaces the tree. -/
def mapRoot (f : State → Except Failure State) : Edit Unit := do
  let root ← view fun e => f e.root
  change fun e => { e with root }

theorem run_view (f : Editor → Except Failure α) (e : Editor) :
    (view f).run e = ⟨f e, e, []⟩ := rfl

theorem run_fail (f : Failure) (e : Editor) : (fail f : Edit α).run e = ⟨.error f, e, []⟩ := rfl

end Edit

namespace Editor

/-! ## What is being edited -/

/-- The path to what is being edited. -/
def path (e : Editor) : List String := e.context.path

/-- The failure of a context that leads nowhere. -/
def contextLost (e : Editor) : Failure := .layerMissing (.context e.path)

/-- The state that is being edited. -/
def current (e : Editor) : Except Failure State :=
  match e.root.stateAt? e.path with
  | some s => .ok s
  | none => .error e.contextLost

/-- The layer that is being edited. -/
def currentLayer (e : Editor) : Except Failure Layer :=
  match e.root.layerAt? e.path with
  | some l => .ok l
  | none => .error e.contextLost

/-- A layer of the context. -/
def contextLayer? (e : Editor) (id : String) : Except Failure (Option Layer) := do
  return (← e.current).child? id

/-- The image that is being edited. -/
def currentImage (e : Editor) : Except Failure String :=
  if e.path.isEmpty then .ok e.imagePath else do return (← e.currentLayer).props.imagePath

/-- The size of the image that is being edited. -/
def currentSize (e : Editor) : Except Failure Size :=
  if e.path.isEmpty then .ok e.size else do return (← e.currentLayer).props.originalDimensions

/-- A tree for the base image. -/
def identified (e : Editor) (s : State) : State :=
  { s with
    params :=
      { s.params with imagePath := some e.imagePath, originalDimensions := some e.size } }

/-- The state of the context as observers see it. -/
def visibleState (e : Editor) : Except Failure State := do
  let s ← e.current
  -- The mark is not part of the tree, only of what observers see.
  return if e.visualCrop then { s with params := { s.params with visualCropEnabled := some true } }
    else s

/-- The complete tree; the base image is named only while it is being edited. -/
def baseState (e : Editor) : State :=
  if e.path.isEmpty then e.root else e.root.withoutIdentity

/-- An editor before its first operation. -/
def start (settings : Settings) (imagePath : String) (size : Size) (bounds : Option Size) :
    Editor :=
  { settings, imagePath, size, bounds
    root := ⟨{ imagePath := some imagePath, originalDimensions := some size }, none⟩
    history := { limit := settings.maxHistorySize.toNat } }

/-! ## Steps that operations share -/

/-- Tells observers the state of the context. -/
def announce : Edit Unit := do
  if ← Edit.view fun e => .ok e.listening then
    let s ← Edit.view visibleState
    Edit.ask [.announce s]

/-- What follows every change: observers are told, and a preview is asked for. -/
def changed : Edit Unit := do
  announce
  Edit.ask [.preview .schedule]

/-- Gives what is being edited a new state. -/
def writeCurrent (s : State) : Edit Unit := do
  let e ← Edit.view .ok
  Edit.mapRoot fun root =>
    if e.path.isEmpty then .ok (e.identified s) else root.setTransformsAt e.path s

/-- Replaces the layers of the context. -/
def updateLayers (f : List Layer → List Layer) : Edit Unit := do
  let e ← Edit.view .ok
  Edit.mapRoot (State.updateLayersAt (fun ls => .ok (f ls)) e.path)

/-- Replaces a layer of the context. -/
def replaceLayer (id : String) (f : Layer → Layer) : Edit Unit := do
  let e ← Edit.view .ok
  Edit.mapRoot fun root => root.replaceLayerAt (e.path ++ [id]) f

end Editor

end Retouch
