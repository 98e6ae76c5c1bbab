/-
  What a session does when something is asked for.

  Effects of the subject and of the previews are carried out in order. Requests that start and
  errands that can go on get in line; nothing in line runs yet.
-/
import Retouch.Session.Basic

namespace Retouch

open Session

namespace Session

variable {δ : Type}

/-- Puts a job at the end of the line. -/
def enqueue (s : Session δ) (j : Job δ) : Session δ := { s with ready := s.ready ++ [j] }

/-- Lets something be heard in any case. -/
def log (s : Session δ) (e : Event) : Session δ := { s with events := s.events ++ [e] }

/-- Lets observers hear something, if there are any. -/
def notify [Subject δ] (s : Session δ) (e : Event) : Session δ :=
  if Subject.listening s.subject then s.log e else s

/-- Ends an errand. -/
def finish (s : Session δ) (errand : Nat) (result : Finish) : Session δ :=
  s.log (.finished errand result)

/-! ## Pauses -/

/-- Runs something on the clock of the pauses. -/
def onPauseClock (s : Session δ) (f : Clock Float Alarm → Window Float × Clock Float Alarm) :
    Window Float × Session δ :=
  if s.byHand then
    let (w, c) := f s.scheduler
    (w, { s with scheduler := c })
  else
    let (w, c) := f s.waits
    (w, { s with waits := c })

/-- Begins the pause before a preview anew. -/
def restartPreviewWindow (s : Session δ) : Session δ :=
  let (w, s) := s.onPauseClock fun c => s.previewWindow.restart c .previewPause
  { s with previewWindow := w }

/-- Stops waiting for the pause before a preview. -/
def stopPreviewWindow (s : Session δ) : Session δ :=
  let (w, s) := s.onPauseClock s.previewWindow.stop
  { s with previewWindow := w }

/-- Begins the pause before an entry of the history anew. -/
def restartHistoryWindow (s : Session δ) : Session δ :=
  let (w, s) := s.onPauseClock fun c => s.historyWindow.restart c .historyPause
  { s with historyWindow := w }

/-- Stops waiting for the pause before an entry of the history. -/
def stopHistoryWindow (s : Session δ) : Session δ :=
  let (w, s) := s.onPauseClock s.historyWindow.stop
  { s with historyWindow := w }

/-! ## Requests and watchers -/

/-- Whether a job is the beginning of a request. -/
def Job.begins (id : Nat) : Job δ → Bool
  | .request i => i = id
  | _ => false

/-- Whether a call was made by a request. -/
def Call.isFor (id : Nat) (c : Call) : Bool :=
  match c.asker with
  | .preview i => i = id
  | .errand _ _ => false

/-- Answers a call. -/
def setReply (s : Session δ) (call : Nat) (o : Preview.Outcome) : Session δ :=
  { s with calls := s.calls.modify call fun c => { c with reply := some o } }

/-- Calls a request off: one that has not begun never begins, and its call gets no answer unless
the generator is stubborn. -/
def withdraw (s : Session δ) (id : Nat) : Session δ :=
  if s.ready.any (Job.begins id) then
    -- It keeps its place in line, so whoever waits for its end hears of it in turn.
    { s with ready := s.ready.map fun j => if j.begins id then .requestOff id else j }
  else
    match s.calls.findIdx? (Call.isFor id) with
    | none => s
    | some call =>
      match s.calls[call]? with
      | none => s
      | some c =>
        -- A stubborn generator is not interrupted, and answers later all the same.
        if c.stubborn then s
        else
          -- A call that was answered already has its job in line; only its outcome changes.
          let t := s.setReply call .withdrawn
          if c.reply.isSome then t else t.enqueue (.reply call)

/-- Tells a watcher whether the preview was displayed. -/
def wake (shown : Option Bool) (s : Session δ) (w : Watcher) : Session δ :=
  let s :=
    match w.timer with
    | some serial => { s with waits := s.waits.cancel serial }
    | none => s
  s.enqueue (.resume w.errand w.announces shown)

/-- Tells all watchers whether the preview was displayed. -/
def wakeAll (s : Session δ) (shown : Option Bool) : Session δ :=
  s.watchers.foldl (wake shown) { s with watchers := [] }

/-! ## Effects -/

/-- What is heard of a notice. -/
def eventOf : Preview.Notice → Event
  | .loading on => .loading on
  | .shown url => .preview url
  | .failed cause => .error cause

/-- Carries out an effect of the previews. -/
def performPreview [Subject δ] (s : Session δ) : Preview.Effect → Session δ
  | .notice n => s.notify (eventOf n)
  | .restartWindow => s.restartPreviewWindow
  | .stopWindow => s.stopPreviewWindow
  | .start id => s.enqueue (.request id)
  | .withdraw id => s.withdraw id
  | .releaseWatchers => s.wakeAll (some true)
  | .dropWatchers => s.wakeAll none

/-- Takes the outcome of an operation on the previews. -/
def takePreview [Subject δ] (s : Session δ) (outcome : Preview × List Preview.Effect) :
    Session δ :=
  outcome.2.foldl performPreview { s with preview := outcome.1 }

/-- Carries out an effect of the subject. -/
def perform [Subject δ] (s : Session δ) : Editor.Effect → Session δ
  | .announce state => s.notify (.state state)
  | .history .changed => s.notify .history
  | .history .restartWindow => s.restartHistoryWindow
  | .history .stopWindow => s.stopHistoryWindow
  | .preview order => s.takePreview (s.preview.apply order)

/-- Takes the outcome of an operation on the subject. -/
def takeSubject [Subject δ] (s : Session δ) (subject : δ) (effects : List Editor.Effect) :
    Session δ :=
  effects.foldl perform { s with subject }

/-- Gives the previews an order. -/
def order [Subject δ] (s : Session δ) (o : Preview.Order) : Session δ := s.perform (.preview o)

/-- Sends an errand; gives its number. -/
def send (s : Session δ) (e : Errand δ) : Nat × Session δ :=
  let n := s.errands + 1
  (n, { s with errands := n }.enqueue (.errand n e))

/-- Answers a call by hand, by its number from one on. Says whether it was still open, nothing if
there is no such call. -/
def answer (s : Session δ) (n : Nat) (o : Preview.Outcome) : Option Bool × Session δ :=
  match n with
  | 0 => (none, s)
  | call + 1 =>
    match s.calls[call]? with
    | none => (none, s)
    | some c =>
      if c.reply.isSome then (some false, s)
      else (some true, (s.setReply call o).enqueue (.reply call))

end Session

end Retouch
