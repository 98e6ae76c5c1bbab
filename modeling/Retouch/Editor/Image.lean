/-
  Other images, and templates.

  An image can take the place of the base image, of the layer being edited or of a layer on it. A
  crop refers to the image that was there, so it goes; the other settings stay. A template takes
  the place of the whole tree.
-/
import Retouch.Editor.Basic
import Retouch.Template.Export
import Retouch.Template.Import

namespace Retouch.Editor

/-! ## Other images -/

/-- A layer with another image. -/
def swapImage (imagePath : String) (size : Size) (transforms : Option State) (l : Layer) : Layer :=
  ⟨{ l.props with imagePath, originalDimensions := size }, transforms⟩

/-- The settings of a layer for another image. The wanted size follows the image, unless it was
chosen to be another than that of the image before. -/
def swappedState (l : Layer) (size : Size) : State :=
  let s := l.state.withoutCrop
  let old := l.props.originalDimensions
  -- A wanted size equal to the old image was never chosen, and follows the new one.
  let unset := s.params.width.isNone && s.params.height.isNone
  if unset || (s.params.width = some old.width && s.params.height = some old.height) then
    { s with params := { s.params with width := some size.width, height := some size.height } }
  else s

/-- Puts an image in place of that of a layer of the context, or of what is being edited. -/
def replaceImage (imagePath : String) (dimensions : Value) (id : Option String) : Edit Unit := do
  -- The size is read and the layer looked for before anything changes.
  let size ← Edit.check (Size.read dimensions)
  match id with
  | some id =>
    match ← Edit.view (·.contextLayer? id) with
    | none => Edit.fail (.layerMissing (.inContext id))
    | some _ => pure ()
  | none => pure ()
  Edit.recordBy History.checkpoint
  let e ← Edit.view .ok
  match id with
  | some id =>
    replaceLayer id fun l => swapImage imagePath size (l.transforms.map State.withoutCrop) l
  | none =>
    if e.path.isEmpty then
      Edit.change fun e => { e with imagePath, size }
      Edit.change fun e => { e with root := e.identified e.root.withoutCrop }
    else
      let l ← Edit.view currentLayer
      Edit.mapRoot fun root =>
        root.replaceLayerAt e.path (swapImage imagePath size (some (swappedState l size)))
  changed

/-! ## Templates -/

/-- The template of the complete tree. A predefined one is for the wanted size, or else for the
size that the base image is resized to. -/
def exportTemplate (e : Editor) (name : Option String) (mode : String)
    (description : Option String) : Except Failure Template := do
  match SizeMode.ofName? mode with
  | none => .error (.value .unknownChoice)
  | some mode =>
    let size ←
      if mode = .predefined && e.root.params.wantedSize.isNone then
        some <$> e.root.params.resized Float e.size none
      else .ok none
    return Template.ofState e.root name mode description size e.settings

/-- The text of a template applied to the size of the base image. -/
def readTemplate (text : String) : Edit ImportResult := fun t =>
  let e := t.editor
  let (result, issued) := Retouch.importTemplate text e.size e.settings e.issued
  (result, { t with editor := { e with issued } })

/-- Puts a template in place of the tree, if it can be applied, and goes to the root. -/
def importTemplate (text : String) : Edit ImportResult := do
  let result ← readTemplate text
  match result.outcome with
  | none => return result
  | some (_, applied) =>
    Edit.recordBy History.checkpoint
    Edit.change fun e =>
      { e with
        context := .root, selected := none, visualCrop := false, root := e.identified applied }
    changed
    return result

end Retouch.Editor
