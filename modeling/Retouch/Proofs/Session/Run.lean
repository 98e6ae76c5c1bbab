/-
  Runs of a session on an editor.

  From outside commands are carried out, errands are sent, calls are answered and time passes.  What
  then stands in line may run in any order, and a pause may end at any time: a run is any succession
  of such happenings (`Session.happen`).  Settling, and moving the clocks, are runs among others
  (`exists_happenings_settle`, `exists_happenings_advance`, `exists_happenings_runAll`).

  A watch is kept over a run: how the latest request ended, which URL was shown last, and what the
  calls ask for that are answered by hand.  It looks only at the moves of the previews, and the
  previews are what these moves make of them (`preview_happen`).
-/
import Retouch.Proofs.Clock.Turns
import Retouch.Proofs.Session.Frame
import Retouch.Session.Editing

namespace Retouch.Session

/-! ## Happenings -/

/-- What can happen in a session. -/
inductive Happening where
  | command (c : Command)
  | send (e : Errand Editor)
  /-- A job in line runs, whether or not it is the first. -/
  | run (place : Nat)
  /-- Something set for a time happens. -/
  | ring (a : Alarm)
  | answer (n : Nat) (outcome : Preview.Outcome)
  /-- URLs come from another generator from now on. -/
  | serve (generator : Generator)
  /-- The clocks are moved, and timers get in line. -/
  | pass (scheduler waits : Clock Float Alarm) (due : List (Nat × Alarm))

/-- What becomes of a session. -/
def happen (s : Session Editor) : Happening → Session Editor
  | .command c => (s.carryOut (Editor.carryOut c)).2
  | .send e => (s.send e).2
  | .run place =>
    match s.ready[place]? with
    | none => s
    | some j => { s with ready := s.ready.eraseIdx place }.runJob j
  | .ring a => s.ring a
  | .answer n outcome => (s.answer n outcome).2
  | .serve generator => { s with generator }
  | .pass scheduler waits due =>
    { s with
      scheduler, waits
      ready := s.ready ++ due.map fun t => .alarm t.1 t.2 }

/-- What becomes of a session in a run. -/
def happenings (s : Session Editor) (hs : List Happening) : Session Editor := hs.foldl happen s

theorem happenings_append (s : Session Editor) (hs hs' : List Happening) :
    s.happenings (hs ++ hs') = (s.happenings hs).happenings hs' := List.foldl_append ..

/-! ## Moves of the previews -/

/-- The moves made when the generator is called: none if the call is answered later. -/
def called (s : Session Editor) (asker : Asker) (ask : Ask) : List Preview.Move :=
  match s.generator with
  | .addresses a => concluded (.url (a.url ask.path)) asker
  | .echo => concluded (.url (echoBase ++ ask.path)) asker
  | .failing text => concluded (.failed (.generator text)) asker
  | .byHand _ => []

/-- The moves made when something happens that was set for a time. -/
def rung (s : Session Editor) : Alarm → List Preview.Move
  | .previewPause => [.pauseOver]
  | .historyPause => ordered (Subject.pauseOver s.subject).2
  | .late _ => []

/-- The moves that a job makes. -/
def ran (s : Session Editor) : Job Editor → List Preview.Move
  | .request id =>
    match s.subject.previewAsk with
    | .error cause => [.settle id (.failed cause)]
    | .ok a => s.called (.preview id) a
  | .requestOff id => [.settle id .withdrawn]
  | .errand _ (.change act _) => ordered (act s.subject).2.2
  | .reply call =>
    match s.calls[call]? with
    | none => []
    | some c => concluded (c.reply.getD .withdrawn) c.asker
  | .alarm serial a => if s.waits.isCancelled serial then [] else s.rung a
  | _ => []

/-- The moves that the previews make when something happens. -/
def moves (s : Session Editor) : Happening → List Preview.Move
  | .command c => ordered ((Editor.carryOut c).run s.subject).effects
  | .run place => (s.ready[place]?).elim [] s.ran
  | .ring a => s.rung a
  | _ => []

/-! ## Calls that are answered by hand -/

/-- Whether calls are answered by hand. -/
def Generator.waits : Generator → Bool
  | .byHand _ => true
  | _ => false

/-- What a job asks the generator for. -/
def asks (s : Session Editor) : Job Editor → Except Failure Ask
  | .request _ => s.subject.previewAsk
  | .errand _ (.fetch ask _) => ask s.subject
  | _ => .error .noParts

/-- What the call asks for that a job leaves to be answered by hand. -/
def opens (s : Session Editor) (j : Job Editor) : List Ask :=
  if s.generator.waits then (s.asks j).toOption.toList else []

/-- What the call asks for that is left to be answered by hand when something happens. -/
def opened (s : Session Editor) : Happening → List Ask
  | .run place => (s.ready[place]?).elim [] s.opens
  | _ => []

/-! ## Watches -/

/-- What was seen of the previews, and what calls answered by hand ask for, in order. -/
structure Watch where
  /-- How the latest request ended, if it did. -/
  ended : Option Preview.Outcome := none
  /-- The URL that was shown last since the one shown was forgotten. -/
  shown : Option String := none
  asked : List Ask := []

namespace Watch

/-- The URL that is shown after an effect. -/
def shownAfter (shown : Option String) : Preview.Effect → Option String
  | .notice (.shown u) => some u
  | _ => shown

/-- Sees a move of the previews. -/
def see (w : Watch) (p : Preview) (m : Preview.Move) : Watch :=
  { w with
    ended :=
      match m with
      | .settle id outcome => if id = p.latest ∧ id ∈ p.running then some outcome else w.ended
      | _ => if (p.move m).1.latest = p.latest then w.ended else none
    shown :=
      match m with
      | .order .reset => none
      | _ => (p.move m).2.foldl shownAfter w.shown }

/-- Sees moves, one after the other. -/
def follow (w : Watch) (p : Preview) : List Preview.Move → Watch
  | [] => w
  | m :: ms => (w.see p m).follow (p.move m).1 ms

/-- Sees moves, and notes what calls ask for. -/
def note (w : Watch) (p : Preview) (ms : List Preview.Move) (asked : List Ask) : Watch :=
  { w.follow p ms with asked := w.asked ++ asked }

/-- Watches something happen in a session. -/
def through (w : Watch) (s : Session Editor) (h : Happening) : Watch :=
  w.note s.preview (s.moves h) (s.opened h)

end Watch

/-! ## Runs -/

/-- Whether an errand is one of those that are sent: it fetches, waits or switches the crop
mode. -/
def Errand.Regular (e : Errand Editor) : Prop :=
  match e with
  | .change .. => ∃ (editor : Editor) (enabled : Bool) (timeout : Option Float),
      e = editor.cropErrand enabled timeout
  | _ => True

/-- Whether a generator gives only the URLs of paths that a function makes. -/
def Generator.Follows (url : String → String) : Generator → Prop
  | .echo => ∀ path, echoBase ++ path = url path
  | .addresses a => ∀ path, a.url path = url path
  | .failing _ | .byHand _ => True

/-- Whether something that happens is regular: no command destroys the editor or fails, and neither
does a change of the crop mode; a call that is answered with a URL gets that of the path it asks
for.  Any call may fail or be called off. -/
def Regular (url : String → String) (s : Session Editor) (w : Watch) : Happening → Prop
  | .command c => c ≠ .destroy ∧ ∃ a, (s.carryOut (Editor.carryOut c)).1 = .ok a
  | .send e => e.Regular
  | .run place => ∀ n act timeout, s.ready[place]? = some (.errand n (.change act timeout)) →
      ∃ b, (act s.subject).1 = .ok b
  | .answer n (.url u) => ∃ a, w.asked[n - 1]? = some a ∧ u = url a.path
  | .serve generator => generator.Follows url
  | _ => True

/-- Whether a regular run leads from a session to another one, and what was seen of it. -/
inductive Reached (url : String → String) (start : Session Editor) :
    Session Editor → Watch → Prop where
  | start : Reached url start start {}
  | step {s : Session Editor} {w : Watch} {h : Happening} (hs : Reached url start s w)
      (hregular : Regular url s w h) : Reached url start (s.happen h) (w.through s h)

/-! ## What the moves make of the previews -/

variable (s : Session Editor)

theorem preview_call (asker : Asker) (ask : Ask) :
    (s.call asker ask).preview = s.preview.moved (s.called asker ask) := by
  unfold call called
  cases s.generator with
  | addresses a => exact (s.frames_conclude asker _).preview
  | echo => exact ((s.log (.generate ask)).frames_conclude asker _).preview
  | failing text => exact ((s.log (.generate ask)).frames_conclude asker _).preview
  | byHand stubborn => rfl

theorem preview_takeSubject (subject : Editor) (effects : List Editor.Effect) :
    (s.takeSubject subject effects).preview = s.preview.moved (ordered effects) :=
  (s.frames_takeSubject subject effects).preview

theorem preview_ring (a : Alarm) : (s.ring a).preview = s.preview.moved (s.rung a) := by
  cases a with
  | previewPause =>
      exact (Session.frames_takePreview { s with previewWindow := s.previewWindow.ended }
        .pauseOver).preview
  | historyPause =>
      exact preview_takeSubject { s with historyWindow := s.historyWindow.ended } _ _
  | late n =>
      simp only [ring]
      split
      · rfl
      · rfl

theorem preview_begin (n : Nat) (e : Errand Editor) :
    (s.begin n e).preview = s.preview.moved (s.ran (.errand n e)) := by
  cases e with
  | fetch ask guarded =>
      simp only [begin]
      split
      · rfl
      · rename_i a _
        rw [preview_call]
        unfold called
        split <;> rfl
  | awaitShown timeout => exact (s.frames_watch n false timeout).preview
  | awaitIdle =>
      simp only [begin]
      split
      · rfl
      · rfl
  | change act timeout =>
      have htaken := s.preview_takeSubject (act s.subject).2.1 (act s.subject).2.2
      simp only [begin]
      split
      · exact htaken
      · exact htaken
      · exact ((frames_watch _ n true (some timeout)).preview).trans htaken

/-- A request reads the path of what is edited when it begins to run. -/
theorem runJob_request_ok {a : Ask} (h : s.subject.previewAsk = .ok a) (id : Nat) :
    s.runJob (.request id) = s.call (.preview id) a := by
  have hask : Subject.ask s.subject = (.ok a, s.subject) := Prod.ext h rfl
  simp only [runJob, hask]

theorem runJob_request_error {x : Failure} (h : s.subject.previewAsk = .error x) (id : Nat) :
    s.runJob (.request id) = s.conclude (.preview id) (.failed x) := by
  have hask : Subject.ask s.subject = (.error x, s.subject) := Prod.ext h rfl
  simp only [runJob, hask]

theorem preview_runJob (j : Job Editor) : (s.runJob j).preview = s.preview.moved (s.ran j) := by
  cases j with
  | request id =>
      cases hask : s.subject.previewAsk with
      | error x =>
          rw [s.runJob_request_error hask id, ran, hask]
          exact (s.frames_conclude (.preview id) _).preview
      | ok a =>
          rw [s.runJob_request_ok hask id, ran, hask]
          exact s.preview_call (.preview id) a
  | requestOff id => exact (s.frames_conclude (.preview id) .withdrawn).preview
  | errand n e => exact s.preview_begin n e
  | reply call =>
      simp only [runJob, ran]
      cases s.calls[call]? with
      | none => rfl
      | some c => exact (s.frames_conclude _ _).preview
  | alarm serial a =>
      simp only [runJob, ran]
      split
      · rfl
      · exact s.preview_ring a
  | idle n => rfl
  | lateNext n announces => rfl
  | resume n announces shown => exact (s.frames_resume n announces shown).preview

/-- The previews are what the moves make of them that are watched. -/
theorem preview_happen (h : Happening) : (s.happen h).preview = s.preview.moved (s.moves h) := by
  cases h with
  | command c => exact s.preview_takeSubject _ _
  | send e => rfl
  | run place =>
      simp only [happen, moves]
      split
      · rename_i hj
        rw [hj]
        rfl
      · rename_i j hj
        rw [hj]
        exact preview_runJob { s with ready := s.ready.eraseIdx place } j
  | ring a => exact s.preview_ring a
  | answer n outcome =>
      show (s.answer n outcome).2.preview = s.preview
      unfold answer
      split
      · rfl
      · split
        · rfl
        · split
          · rfl
          · rfl
  | serve generator => rfl
  | pass scheduler waits due => rfl

/-! ## Settling and moving the clocks -/

theorem runJobs_eq_happenings (n : Nat) :
    runJobs n s = s.happenings (List.replicate n (.run 0)) := by
  -- When the line is empty before all jobs are counted, running its first place does nothing.
  have hnone : ∀ (n : Nat) (s : Session Editor), s.ready = [] →
      s.happenings (List.replicate n (.run 0)) = s := by
    intro n s hs
    induction n with
    | zero => rfl
    | succ n ih =>
        have hstep : s.happen (.run 0) = s := by simp only [happen, hs, List.getElem?_nil]
        show (s.happen (.run 0)).happenings (List.replicate n (.run 0)) = s
        rw [hstep, ih]
  induction n generalizing s with
  | zero => rfl
  | succ n ih =>
      cases hs : s.ready with
      | nil =>
          rw [hnone (n + 1) s hs]
          simp only [runJobs, hs]
      | cons j js =>
          have hstep : s.happen (.run 0) = { s with ready := js }.runJob j := by
            simp only [happen, hs, List.getElem?_cons_zero, List.eraseIdx_cons_zero]
          show _ = (s.happen (.run 0)).happenings (List.replicate n (.run 0))
          rw [hstep, ← ih]
          simp only [runJobs, hs]

theorem exists_happening_collectDue : ∃ h, s.collectDue = s.happen h := by
  -- Timers that come due leave their clock and join the line at once.
  let isDue (t : Timer Float Alarm) : Bool := t.due < s.waits.now + earliness
  refine ⟨.pass s.scheduler { s.waits with line := s.waits.line.dropWhile isDue }
    ((s.waits.line.takeWhile isDue).map fun t => (t.serial, t.action)), ?_⟩
  simp only [collectDue, happen, List.map_map]
  rfl

theorem exists_happenings_runRounds (n : Nat) : ∃ hs, runRounds n s = s.happenings hs := by
  induction n generalizing s with
  | zero => exact ⟨[], rfl⟩
  | succ n ih =>
      obtain ⟨h, hdue⟩ := s.exists_happening_collectDue
      unfold runRounds
      extract_lets t
      have ht : t = s.happen h := hdue
      split
      · exact ⟨[h], ht⟩
      · obtain ⟨hs, hrest⟩ := ih (runJobs t.ready.length t)
        refine ⟨h :: (List.replicate t.ready.length (.run 0) ++ hs), ?_⟩
        show _ = (s.happen h).happenings _
        rw [happenings_append, ← ht, ← runJobs_eq_happenings]
        exact hrest

/-- Settling is a run. -/
theorem exists_happenings_settle : ∃ hs, s.settle = s.happenings hs :=
  s.exists_happenings_runRounds _

/-- A session whose clock that is moved by hand is beside it. -/
def beside (w : Clock Float Alarm × Session Editor) : Session Editor :=
  { w.2 with scheduler := w.1 }

theorem happen_pass (w : Clock Float Alarm × Session Editor) (c : Clock Float Alarm) :
    (beside w).happen (.pass c w.2.waits []) = beside (c, w.2) := by
  simp only [happen, beside, List.map_nil, List.append_nil]

/-- Whether a run leads from a session to one whose clock that is moved by hand is beside it. -/
def RunsBeside (w : Clock Float Alarm × Session Editor) : Prop :=
  ∃ hs, beside w = s.happenings hs

section

variable {s : Session Editor} {c d : Clock Float Alarm} {v : Session Editor}

theorem RunsBeside.move (h : s.RunsBeside (c, v)) (d : Clock Float Alarm) :
    s.RunsBeside (d, v) := by
  obtain ⟨hs, hrun⟩ := h
  refine ⟨hs ++ [.pass d v.waits []], ?_⟩
  rw [happenings_append, ← hrun]
  exact (happen_pass (c, v) d).symm

theorem RunsBeside.ring (h : s.RunsBeside (c, v)) (a : Alarm) :
    s.RunsBeside (ringByHand a (c, v)) := by
  obtain ⟨hs, hrun⟩ := h
  refine ⟨hs ++ [.ring a], ?_⟩
  rw [happenings_append, ← hrun]
  rfl

end

theorem exists_happenings_takeScheduler
    (moved : Option (Nat × Clock Float Alarm × Session Editor))
    (h : ∀ n w, moved = some (n, w) → s.RunsBeside w) :
    ∃ hs, (s.takeScheduler moved).2 = s.happenings hs := by
  cases moved with
  | none => exact ⟨[], rfl⟩
  | some moved => exact h moved.1 moved.2 rfl

/-- Letting time pass is a run. -/
theorem exists_happenings_advance (milliseconds : Float) :
    ∃ hs, (s.advance milliseconds).2 = s.happenings hs := by
  have hmove : ∀ t : Session Editor, ∃ h, { t with
      waits := { t.waits with now := t.waits.now + milliseconds / 1000.0 } } = t.happen h := by
    intro t
    refine ⟨.pass t.scheduler
      { t.waits with now := t.waits.now + milliseconds / 1000.0 } [], ?_⟩
    simp only [happen, List.map_nil, List.append_nil]
  unfold advance
  split
  · obtain ⟨hs, hrun⟩ := s.exists_happenings_takeScheduler
      (Clock.advance? ringByHand (s.scheduler.line.length + 1) (milliseconds / 1000.0)
        (s.scheduler, s))
      fun n w h => Clock.keeps_advance? (fun h _ _ => h.move _) (fun h _ _ => (h.move _).ring _)
        (fun _ h => h.move _) ⟨[], rfl⟩ h
    obtain ⟨h, hlast⟩ := hmove (s.happenings hs)
    refine ⟨hs ++ [h], ?_⟩
    rw [happenings_append, ← hrun]
    rw [← hrun] at hlast
    exact hlast
  · obtain ⟨h, hlast⟩ := hmove s
    exact ⟨[h], hlast⟩

/-- Running all timers is a run. -/
theorem exists_happenings_runAll : ∃ hs, s.runAll.2 = s.happenings hs :=
  s.exists_happenings_takeScheduler _ fun _ _ h =>
    Clock.keeps_runAll? (fun h _ _ => h.move _) (fun h _ _ => (h.move _).ring _)
      (fun _ h => h.move _) ⟨[], rfl⟩ h

end Retouch.Session
