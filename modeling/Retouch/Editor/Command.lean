/-
  The operations of an editing session as data.

  A `Command` is one operation with its arguments; `Editor.carryOut` runs it. Whatever sequence of
  commands is run, the editor stays in a state that `Editor.carryOut` can go on from.
-/
import Retouch.Editor.Image
import Retouch.Editor.Layers
import Retouch.Editor.Travel

namespace Retouch

/-- An operation on the editor. -/
inductive Command where
  /-- Starts over with the base image, with or without observers. -/
  | startOver (listening : Bool)
  /-- Gives up what waits, and the observers. -/
  | destroy
  | update (updates : Editor.Updates) (recorded keepRatio : Bool)
  | restore (document : Editor.Updates)
  | resetParams
  | toggleAspect
  | undo
  | redo
  | addLayer (document : Value)
  | removeLayer (id : String)
  | duplicateLayer (id : String)
  | updateLayer (id : String) (updates : Editor.LayerUpdates) (recorded : Bool)
  | reorder (ids : List String)
  | select (id : Option String)
  | switchContext (id : Option String)
  | replaceImage (imagePath : String) (dimensions : Value) (id : Option String)
  | importTemplate (text : String)
  /-- Takes note that the preview is displayed. -/
  | notifyLoaded

/-- What an operation answers. -/
inductive Command.Answer where
  | done
  | truth (b : Bool)
  | layer (l : Option Layer)
  | imported (r : ImportResult)

namespace Editor

/-- Starts over with the base image. -/
def startOver (listening : Bool) : Edit Unit := do
  Edit.change fun e =>
    { e with
      listening, context := .root, selected := none, visualCrop := false
      root := e.identified .empty }
  Edit.recordBy fun h _ => h.clear
  Edit.ask [.preview .reset, .preview .schedule]

/-- Gives up what waits, and the observers. -/
def destroy : Edit Unit := do
  Edit.recordBy fun h _ => h.cancel
  Edit.ask [.preview .cancel]
  Edit.change fun e => { e with listening := false }

/-- Switches the crop mode; says whether it waits for a preview to be displayed. Entering the mode
with a crop shows the whole image first; otherwise observers are told at once. -/
def setVisualCrop (enabled : Bool) : Edit Bool := do
  let e ← Edit.view .ok
  if e.visualCrop = enabled then return false
  Edit.change fun e => { e with visualCrop := enabled }
  if enabled then
    let s ← Edit.view current
    if s.params.hasCrop then
      Edit.ask [.preview .schedule, .preview .flush]
      return true
  changed
  return false

/-- Runs a command. -/
def carryOut : Command → Edit Command.Answer
  | .startOver listening => answerDone (startOver listening)
  | .destroy => answerDone destroy
  | .update updates recorded keepRatio => answerDone (update updates recorded keepRatio)
  | .restore document => answerDone (restore document)
  | .resetParams => answerDone resetParams
  | .toggleAspect => .truth <$> toggleAspect
  | .undo => .truth <$> undo
  | .redo => .truth <$> redo
  | .addLayer document => (.layer ∘ some) <$> addLayer document
  | .removeLayer id => answerDone (removeLayer id)
  | .duplicateLayer id => .layer <$> duplicateLayer id
  | .updateLayer id updates recorded => answerDone (updateLayer id updates recorded)
  | .reorder ids => answerDone (reorder ids)
  | .select id => answerDone (select id)
  | .switchContext id => answerDone (switchContext id)
  | .replaceImage imagePath dimensions id => answerDone (replaceImage imagePath dimensions id)
  | .importTemplate text => .imported <$> importTemplate text
  | .notifyLoaded => answerDone (Edit.ask [.preview .notifyLoaded])
where
  /-- Runs an operation without answer. -/
  answerDone (edit : Edit Unit) : Edit Command.Answer := do
    edit
    return .done

end Editor

end Retouch
