/-
  Sessions: something that is edited, its previews, and all that takes time.

  URLs come from a generator, at once or later. Errands are asked for by hand and finish with a
  result: they fetch a URL or wait for something. What can go on stands in line as jobs, first come
  first served; what waits for a time stands on one of two clocks. Pauses are on a clock that is
  moved by hand, or on that of the waits.
-/
import Retouch.Clock.Debounce
import Retouch.Editor.Basic
import Retouch.Path.Signature

namespace Retouch

/-- What a session works on. -/
class Subject (δ : Type) where
  /-- Whether there are observers. -/
  listening : δ → Bool
  /-- What the preview shows now. -/
  ask : δ → Except Failure Ask × δ
  /-- The pause in the changes has come. -/
  pauseOver : δ → δ × List Editor.Effect
  /-- What observers are told now, if there are any. -/
  announced : δ → Except Failure (Option State)

namespace Session

/-! ## URLs -/

/-- Where URLs come from. -/
inductive Generator where
  /-- An address made of the path, at once. -/
  | echo
  /-- No URL, but a failure. -/
  | failing (text : String)
  /-- An answer given by hand later. A `stubborn` generator answers even when it is called off. -/
  | byHand (stubborn : Bool)
  /-- Signed addresses, at once and unheard. -/
  | addresses (a : Addressing)

/-- What the echo stands behind. -/
def echoBase : String := "https://imagor.test/unsafe/"

/-- Who waits for a URL. -/
inductive Asker where
  | preview (request : Nat)
  /-- An errand; a `guarded` one reports a failure as its result. -/
  | errand (n : Nat) (guarded : Bool)

/-- A call of the generator that is answered by hand. -/
structure Call where
  asker : Asker
  stubborn : Bool
  reply : Option Preview.Outcome := none

/-! ## Errands -/

/-- Something that is asked for by hand and takes time. -/
inductive Errand (δ : Type) where
  /-- Fetches a URL. -/
  | fetch (ask : δ → Except Failure Ask) (guarded : Bool)
  /-- Waits until the preview is displayed, or for a number of seconds. -/
  | awaitShown (timeout : Option Float)
  /-- Waits until no request is under way. -/
  | awaitIdle
  /-- Changes the subject; if it says so, waits until the preview is displayed, and tells observers
  then. -/
  | change (act : δ → Except Failure Bool × δ × List Editor.Effect) (timeout : Float)

/-- The result of an errand. -/
inductive Finish where
  | done
  | truth (b : Bool)
  | url (u : String)
  /-- The URL, or why there is none. -/
  | download (r : Except String String)
  | failed (cause : Failure)
  | cancelled

/-- An errand that waits until the preview is displayed. -/
structure Watcher where
  errand : Nat
  /-- Whether observers are told afterwards. -/
  announces : Bool
  /-- The timer after which it gives up. -/
  timer : Option Nat

/-! ## Events -/

/-- What can be heard of a session. -/
inductive Event where
  | loading (on : Bool)
  | preview (url : String)
  | error (cause : Failure)
  | state (s : State)
  | history
  | generate (ask : Ask)
  | finished (errand : Nat) (result : Finish)

/-! ## Jobs -/

/-- What happens at a time. -/
inductive Alarm where
  | previewPause
  | historyPause
  /-- An errand gives up waiting. -/
  | late (errand : Nat)

/-- What can go on now. -/
inductive Job (δ : Type) where
  /-- A request begins. -/
  | request (id : Nat)
  /-- A request that was withdrawn before it began. -/
  | requestOff (id : Nat)
  | errand (n : Nat) (e : Errand δ)
  /-- The answer to a call is taken. -/
  | reply (call : Nat)
  /-- A timer on the clock of the waits came due. -/
  | alarm (serial : Nat) (a : Alarm)
  /-- An errand learns that no request is under way. -/
  | idle (errand : Nat)
  /-- An errand gives up waiting in the next round. -/
  | lateNext (errand : Nat) (announces : Bool)
  /-- An errand learns whether the preview was displayed, nothing if it is called off. -/
  | resume (errand : Nat) (announces : Bool) (shown : Option Bool)

end Session

open Session

/-- A session on a subject. -/
structure Session (δ : Type) where
  subject : δ
  generator : Generator
  /-- Whether pauses are on the clock that is moved by hand. -/
  byHand : Bool
  preview : Preview := {}
  previewWindow : Window Float
  historyWindow : Window Float
  /-- The clock that is moved by hand. -/
  scheduler : Clock Float Alarm := .start
  /-- The clock of the waits. -/
  waits : Clock Float Alarm := .start
  calls : List Call := []
  /-- How many errands there were. -/
  errands : Nat := 0
  ready : List (Job δ) := []
  watchers : List Watcher := []
  /-- The errands that wait for the end of a request. -/
  idlers : List (Nat × Nat) := []
  events : List Event := []

end Retouch
