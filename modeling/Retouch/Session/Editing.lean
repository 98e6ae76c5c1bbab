/-
  Sessions on an editor.

  Commands are carried out at once; what they ask for is done in order. Fetching URLs, waiting and
  switching the crop mode are errands.
-/
import Retouch.Editor.Canvas
import Retouch.Editor.Command
import Retouch.Session.Run

namespace Retouch

instance : Subject Editor where
  listening e := e.listening
  ask e := (e.previewAsk, e)
  pauseOver e :=
    let (history, effects) := e.history.commit
    ({ e with history }, effects.map .history)
  announced e := if e.listening then some <$> e.visibleState else .ok none

namespace Editor

/-- A number of milliseconds in seconds. -/
def secondsOf (milliseconds : Int) : Float := Float.ofInt milliseconds / 1000.0

/-- A session on an editor. -/
def session (e : Editor) (generator : Session.Generator) (byHand : Bool) : Session Editor :=
  { subject := e, generator, byHand
    previewWindow := { length := secondsOf e.settings.previewDebounceMs }
    historyWindow := { length := secondsOf e.settings.historyDebounceMs } }

/-- An errand that switches the crop mode. -/
def cropErrand (e : Editor) (enabled : Bool) (timeout : Option Float) : Session.Errand Editor :=
  .change
    (fun e =>
      let o := (setVisualCrop enabled).run e
      (o.result, o.editor, o.effects))
    (timeout.getD e.settings.previewLoadTimeoutS)

end Editor

namespace Session

/-- Carries out an operation; what it asks for is done even if it fails. -/
def carryOut {α : Type} (s : Session Editor) (edit : Edit α) : Except Failure α × Session Editor :=
  let o := edit.run s.subject
  (o.result, s.takeSubject o.editor o.effects)

end Session

end Retouch
