/-
  Previews of something that keeps changing.

  A preview is requested after a pause in the changes. Requests are numbered; a newer one takes the
  place of the one under way, which is withdrawn, and what an older one still brings is ignored. A
  URL that is shown already is not shown again. Operations say what they ask for: what observers
  hear, what becomes of the pause, which requests start or are withdrawn, and who no longer waits
  for the display. Main facts: a request that is not under way changes nothing
  (`settle_of_not_running`), and only the latest one is heard (`settle_of_lt_latest`).
-/
import Retouch.Failure

namespace Retouch

/-- The path of an image, to be made a URL. -/
structure Ask where
  imagePath : String
  path : String
  deriving DecidableEq, Repr

/-- What is known about previews. -/
structure Preview where
  /-- Whether a request waits for a pause. -/
  scheduled : Bool := false
  /-- The number of the latest request. -/
  latest : Nat := 0
  /-- The request that a newer one takes the place of. -/
  current : Option Nat := none
  /-- The requests that have not ended, in order. -/
  running : List Nat := []
  /-- The URL that is shown. -/
  lastUrl : Option String := none
  loading : Bool := false

namespace Preview

/-- What observers hear. -/
inductive Notice where
  | loading (on : Bool)
  | shown (url : String)
  | failed (cause : Failure)

/-- What an operation asks for. -/
inductive Effect where
  | notice (n : Notice)
  /-- The pause before a request begins anew. -/
  | restartWindow
  | stopWindow
  | start (request : Nat)
  | withdraw (request : Nat)
  /-- Whoever waits for the display is told that it is there. -/
  | releaseWatchers
  /-- Whoever waits for the display is told to give up. -/
  | dropWatchers

/-- How a request ends. -/
inductive Outcome where
  | url (u : String)
  | failed (cause : Failure)
  | withdrawn

/-- Sets the loading mark; observers hear of it each time. -/
def setLoading (p : Preview) (on : Bool) : Preview × List Effect :=
  ({ p with loading := on }, [.notice (.loading on)])

/-- Asks for a preview after a pause. -/
def schedule (p : Preview) : Preview × List Effect :=
  -- Observers hear of loading once for changes in quick succession.
  if p.scheduled then (p, [.restartWindow])
  else
    let (p, effects) := p.setLoading true
    ({ p with scheduled := true }, effects ++ [.restartWindow])

/-- Withdraws the request that is under way. -/
def withdrawCurrent (p : Preview) : List Effect :=
  match p.current with
  | some id => if p.running.contains id then [.withdraw id] else []
  | none => []

/-- Starts a request at the end of the pause. -/
def pauseOver (p : Preview) : Preview × List Effect :=
  let id := p.latest + 1
  ({ p with scheduled := false, latest := id, current := some id, running := p.running ++ [id] },
    p.withdrawCurrent ++ [.start id])

/-- Starts the request that waits for a pause, if there is one. -/
def flush (p : Preview) : Preview × List Effect :=
  if p.scheduled then
    let (p, effects) := p.pauseOver
    (p, .stopWindow :: effects)
  else (p, [])

/-- Forgets the URL that is shown, so that the next one is shown in any case. -/
def reset (p : Preview) : Preview := { p with lastUrl := none }

/-- Gives up what waits and what is under way. -/
def cancel (p : Preview) : Preview × List Effect :=
  ({ p with scheduled := false, current := none },
    .stopWindow :: p.withdrawCurrent ++ [.dropWatchers])

/-- Takes note that the preview is displayed. -/
def notifyLoaded (p : Preview) : Preview × List Effect :=
  let (p, effects) := p.setLoading false
  (p, effects ++ [.releaseWatchers])

/-- The failure of a preview with a cause. -/
def failure : Failure → Failure
  | .preview text => .preview text
  | cause => .preview ("Preview generation failed: " ++ cause.message)

/-- Takes what came of a request that is under way. -/
def settle (p : Preview) (id : Nat) (outcome : Outcome) : Preview × List Effect :=
  if id ∈ p.running then
    let p := { p with running := p.running.erase id }
    match outcome with
    | .withdrawn => (p, [])
    | .failed cause =>
      -- A failure is heard only if no newer request was made since.
      if id = p.latest then
        let (p, effects) := p.setLoading false
        (p, effects ++ [.notice (.failed (failure cause))])
      else (p, [])
    | .url u =>
      if id ≠ p.latest then (p, [])
      -- The same URL would not be loaded again, so nobody would report it as displayed.
      else if p.lastUrl = some u then p.setLoading false
      -- Loading goes on until the preview is reported as displayed.
      else ({ p with lastUrl := some u }, [.notice (.shown u)])
  else (p, [])

/-- Whether the current request has not ended. -/
def busy? (p : Preview) : Option Nat := p.current.filter p.running.contains

/-- An operation that can be asked for. -/
inductive Order where
  | schedule | flush | reset | cancel | notifyLoaded
  deriving DecidableEq, Repr

/-- Carries out an order. -/
def apply (p : Preview) : Order → Preview × List Effect
  | .schedule => p.schedule
  | .flush => p.flush
  | .reset => (p.reset, [])
  | .cancel => p.cancel
  | .notifyLoaded => p.notifyLoaded

/-! ## Laws -/

theorem settle_of_not_running {p : Preview} {id : Nat} (h : id ∉ p.running) (outcome : Outcome) :
    p.settle id outcome = (p, []) := by
  simp [settle, h]

/-- What an older request brings is not heard. -/
theorem settle_of_lt_latest {p : Preview} {id : Nat} (h : id < p.latest) (outcome : Outcome) :
    (p.settle id outcome).2 = [] := by
  have hne : id ≠ p.latest := Nat.ne_of_lt h
  by_cases hrun : id ∈ p.running
  · cases outcome <;> simp [settle, hrun, hne]
  · simp [settle, hrun]

end Preview

end Retouch
