/-
  How a session goes on.

  Jobs run in rounds: a round runs what was in line when it began, and what it puts in line waits
  for the next one. A session is quiet when nothing is in line and no timer is due.
-/
import Retouch.Session.Perform

namespace Retouch.Session

variable {δ : Type} [Subject δ]

/-! ## Jobs -/

/-- The text of a failure as the result of a guarded errand. -/
def downloadText (cause : Failure) : String :=
  if cause.message.isEmpty then "Failed to download image" else cause.message

/-- The result of an errand that fetched a URL. -/
def fetchResult (guarded : Bool) : Preview.Outcome → Finish
  | .url u => if guarded then .download (.ok u) else .url u
  | .failed cause => if guarded then .download (.error (downloadText cause)) else .failed cause
  | .withdrawn => .cancelled

/-- Tells the errands that wait for the end of a request. -/
def wakeIdlers (s : Session δ) (id : Nat) : Session δ :=
  let (woken, others) := s.idlers.partition fun (_, request) => request = id
  woken.foldl (fun s (errand, _) => s.enqueue (.idle errand)) { s with idlers := others }

/-- Brings what came of a call to whoever waits for it. -/
def conclude (s : Session δ) (asker : Asker) (o : Preview.Outcome) : Session δ :=
  match asker with
  | .preview id => (s.takePreview (s.preview.settle id o)).wakeIdlers id
  | .errand n guarded => s.finish n (fetchResult guarded o)

/-- Calls the generator. -/
def call (s : Session δ) (asker : Asker) (ask : Ask) : Session δ :=
  match s.generator with
  | .addresses a => s.conclude asker (.url (a.url ask.path))
  | .echo => (s.log (.generate ask)).conclude asker (.url (echoBase ++ ask.path))
  | .failing text => (s.log (.generate ask)).conclude asker (.failed (.generator text))
  | .byHand stubborn =>
    let s := s.log (.generate ask)
    { s with calls := s.calls ++ [{ asker, stubborn }] }

/-- Lets an errand wait until the preview is displayed. -/
def watch (s : Session δ) (errand : Nat) (announces : Bool) (timeout : Option Float) :
    Session δ :=
  match timeout with
  | none => { s with watchers := s.watchers ++ [⟨errand, announces, none⟩] }
  | some seconds =>
    -- A wait without time is over without a timer.
    if seconds ≤ 0.0 then s.enqueue (.lateNext errand announces)
    else
      { s with
        waits := s.waits.later seconds (.late errand)
        watchers := s.watchers ++ [⟨errand, announces, some s.waits.count⟩] }

/-- Begins an errand. -/
def begin (s : Session δ) (n : Nat) : Errand δ → Session δ
  | .fetch ask guarded =>
    match ask s.subject with
    | .error cause => s.finish n (fetchResult guarded (.failed cause))
    | .ok a => s.call (.errand n guarded) a
  | .awaitShown timeout => s.watch n false timeout
  | .awaitIdle =>
    match s.preview.busy? with
    | none => s.finish n .done
    | some id => { s with idlers := s.idlers ++ [(n, id)] }
  | .change act timeout =>
    let (result, subject, effects) := act s.subject
    let s := s.takeSubject subject effects
    match result with
    | .error cause => s.finish n (.failed cause)
    | .ok false => s.finish n .done
    -- The change shows only in the next preview, so the errand waits until it is displayed.
    | .ok true => s.watch n true (some timeout)

/-- Lets an errand go on that waited until the preview is displayed. -/
def resume (s : Session δ) (errand : Nat) (announces : Bool) : Option Bool → Session δ
  | none => s.finish errand .cancelled
  | some shown =>
    if announces then
      match Subject.announced s.subject with
      | .error cause => s.finish errand (.failed cause)
      | .ok none => s.finish errand .done
      | .ok (some state) => (s.notify (.state state)).finish errand .done
    else s.finish errand (.truth shown)

/-- Does what happens at a time. -/
def ring (s : Session δ) : Alarm → Session δ
  | .previewPause =>
    { s with previewWindow := s.previewWindow.ended }.takePreview s.preview.pauseOver
  | .historyPause =>
    let (subject, effects) := Subject.pauseOver s.subject
    { s with historyWindow := s.historyWindow.ended }.takeSubject subject effects
  | .late errand =>
    match s.watchers.find? (·.errand = errand) with
    | none => s
    | some w =>
      { s with watchers := s.watchers.filter (·.errand ≠ errand) }.enqueue
        (.resume errand w.announces (some false))

/-- Runs a job. -/
def runJob (s : Session δ) : Job δ → Session δ
  | .request id =>
    let (ask, subject) := Subject.ask s.subject
    let s := { s with subject }
    match ask with
    | .error cause => s.conclude (.preview id) (.failed cause)
    | .ok a => s.call (.preview id) a
  | .requestOff id => s.conclude (.preview id) .withdrawn
  | .errand n e => s.begin n e
  | .reply call =>
    match s.calls[call]? with
    | none => s
    | some c => s.conclude c.asker (c.reply.getD .withdrawn)
  -- A timer may be cancelled while it stands in line.
  | .alarm serial a => if s.waits.isCancelled serial then s else s.ring a
  | .idle errand => s.finish errand .done
  | .lateNext errand announces => s.enqueue (.resume errand announces (some false))
  | .resume errand announces shown => s.resume errand announces shown

/-! ## Rounds -/

/-- How far ahead of its time a timer on the clock of the waits is due. -/
def earliness : Float := 1.0e-9

/-- Puts the timers in line that are due on the clock of the waits. -/
def collectDue (s : Session δ) : Session δ :=
  let isDue (t : Timer Float Alarm) : Bool := t.due < s.waits.now + earliness
  let due := s.waits.line.takeWhile isDue
  { s with
    waits := { s.waits with line := s.waits.line.dropWhile isDue }
    ready := s.ready ++ due.map fun t => .alarm t.serial t.action }

/-- Runs the first jobs in line, as many as given. -/
def runJobs : Nat → Session δ → Session δ
  | 0, s => s
  | n + 1, s =>
    match s.ready with
    | [] => s
    | j :: js => runJobs n ({ s with ready := js }.runJob j)

/-- Runs rounds until the session is quiet, at most as many as given. -/
def runRounds : Nat → Session δ → Session δ
  | 0, s => s
  | n + 1, s =>
    -- Timers join behind what is in line, and run in the same round.
    let s := s.collectDue
    if s.ready.isEmpty then s else runRounds n (runJobs s.ready.length s)

/-- A bound on the rounds that a session needs: what is in line or due takes a few rounds each. -/
def roundLimit (s : Session δ) : Nat :=
  16 + s.ready.length + s.waits.line.length + s.calls.length

/-- Lets a session go on until it is quiet. -/
def settle (s : Session δ) : Session δ := runRounds s.roundLimit s

/-! ## Time -/

/-- Runs a timer of the clock that is moved by hand. -/
def ringByHand (a : Alarm) (w : Clock Float Alarm × Session δ) :
    Clock Float Alarm × Session δ :=
  let s := { w.2 with scheduler := w.1 }.ring a
  (s.scheduler, s)

/-- Takes the outcome of moving the clock that is moved by hand; gives the number of actions run. -/
def takeScheduler (s : Session δ) :
    Option (Nat × Clock Float Alarm × Session δ) → Nat × Session δ
  | some (n, c, s) => (n, { s with scheduler := c })
  | none => (0, s)

/-- Lets time pass: on the clock that is moved by hand, if pauses are on it, and then on the clock
of the waits. Gives the number of actions run on the first one. -/
def advance (s : Session δ) (milliseconds : Float) : Option Nat × Session δ :=
  let seconds := milliseconds / 1000.0
  let move (s : Session δ) : Session δ :=
    { s with waits := { s.waits with now := s.waits.now + seconds } }
  if s.byHand then
    let (n, s) := s.takeScheduler
      (Clock.advance? ringByHand (s.scheduler.line.length + 1) seconds (s.scheduler, s))
    (some n, move s)
  else (none, move s)

/-- Runs all timers of the clock that is moved by hand. -/
def runAll (s : Session δ) : Nat × Session δ :=
  -- No pause sets another timer when it ends, and two rounds reach the time of each.
  let n := s.scheduler.line.length
  s.takeScheduler (Clock.runAll? ringByHand (n + 1) (2 * n + 2) (s.scheduler, s))

end Retouch.Session
