/-
  Who waits for the display.

  An errand that waits until the preview is displayed is told by a report or when all is given up,
  or it quits when its time is over; nothing else ends the wait (`waits_happenings`).  Errands are
  numbered when they are sent and begin once, so each that waits or has not begun has a number of
  its own (`Numbered`).

  Effects either tell all who wait or leave them alone (`Wakes`).  Running a job may besides make
  one quit or let the errand that begins wait (`Runs`), and whatever happens comes to running a job
  (`runs_happen`).
-/
import Mathlib.Data.List.Perm.Basic
import Retouch.Proofs.Session.Run

namespace Retouch

namespace Preview

/-! ## What watchers are told -/

/-- Whether an effect tells whoever waits for the display. -/
def Effect.tells : Effect → Bool
  | .releaseWatchers | .dropWatchers => true
  | _ => false

/-- Whether a move tells whoever waits for the display. -/
def Move.tells : Move → Bool
  | .order .notifyLoaded | .order .cancel => true
  | _ => false

theorem any_tells_withdrawCurrent (p : Preview) : p.withdrawCurrent.any Effect.tells = false := by
  refine List.any_eq_false.mpr fun e he => ?_
  obtain ⟨id, rfl⟩ := eq_withdraw_of_mem he
  exact Bool.false_ne_true

theorem any_tells_move (p : Preview) (m : Move) : (p.move m).2.any Effect.tells = m.tells := by
  -- Both the end of a pause and a flush come to this.
  have hpause : p.pauseOver.2.any Effect.tells = false := by
    show (p.withdrawCurrent ++ [Effect.start (p.latest + 1)]).any Effect.tells = false
    rw [List.any_append, p.any_tells_withdrawCurrent]
    rfl
  cases m with
  | pauseOver => exact hpause
  | settle id outcome =>
      show (p.settle id outcome).2.any Effect.tells = false
      unfold settle
      split
      · cases outcome with
        | withdrawn => rfl
        | failed cause =>
            by_cases hid : id = p.latest
            · simp [hid, setLoading, Effect.tells]
            · simp [hid]
        | url u =>
            by_cases hid : id = p.latest
            · by_cases hlast : p.lastUrl = some u
              · simp [hid, hlast, setLoading, Effect.tells]
              · simp [hid, hlast, Effect.tells]
            · simp [hid]
      · rfl
  | order o =>
      cases o with
      | schedule =>
          show p.schedule.2.any Effect.tells = false
          unfold schedule
          split
          · rfl
          · rfl
      | flush =>
          show p.flush.2.any Effect.tells = false
          unfold flush
          split
          · exact hpause
          · rfl
      | reset => rfl
      | cancel =>
          show (Effect.stopWindow :: p.withdrawCurrent ++ [Effect.dropWatchers]).any _ = true
          rw [List.any_append]
          exact Bool.or_true _
      | notifyLoaded => rfl

end Preview

namespace Session

/-! ## Who waits -/

section

variable {δ : Type}

/-- The number of an errand that has not begun. -/
def Job.errand? : Job δ → Option Nat
  | .errand n _ => some n
  | _ => none

/-- The errands that have not begun. -/
def unbegun (s : Session δ) : List Nat := s.ready.filterMap Job.errand?

/-- The errands that wait until the preview is displayed. -/
def waiting (s : Session δ) : List Nat := s.watchers.map (·.errand)

/-- Whether a session is as carrying out effects may leave another one, where those who wait for the
display are told or not. -/
structure Wakes (s t : Session δ) (told : Bool) : Prop where
  errands : t.errands = s.errands
  unbegun : t.unbegun = s.unbegun
  watchers : t.watchers = if told then [] else s.watchers

namespace Wakes

variable {s t u : Session δ} {a b : Bool}

theorem trans (h : Wakes s t a) (h' : Wakes t u b) : Wakes s u (a || b) where
  errands := h'.errands.trans h.errands
  unbegun := h'.unbegun.trans h.unbegun
  watchers := by
    rw [h'.watchers, h.watchers]
    cases a <;> cases b <;> rfl

/-- A session in which the same errands wait and have not begun. -/
theorem of_eq (herrands : t.errands = s.errands) (hunbegun : t.unbegun = s.unbegun)
    (hwatchers : t.watchers = s.watchers) : Wakes s t false := ⟨herrands, hunbegun, hwatchers⟩

theorem refl (s : Session δ) : Wakes s s false := .of_eq rfl rfl rfl

/-- Nobody is told if no step along a list tells anyone. -/
theorem foldl {α : Type} {f : Session δ → α → Session δ} {told : α → Bool}
    (h : ∀ s a, Wakes s (f s a) (told a)) (as : List α) (s : Session δ) :
    Wakes s (as.foldl f s) (as.any told) := by
  induction as generalizing s with
  | nil => exact refl s
  | cons a as ih => exact (h s a).trans (ih (f s a))

end Wakes

/-! ## Effects -/

theorem wakes_enqueue (s : Session δ) {j : Job δ} (hj : j.errand? = none) :
    Wakes s (s.enqueue j) false := by
  refine .of_eq rfl ?_ rfl
  show (s.ready ++ [j]).filterMap Job.errand? = s.unbegun
  rw [List.filterMap_append, List.filterMap_cons_none hj]
  exact List.append_nil _

theorem wakes_notify [Subject δ] (s : Session δ) (e : Event) : Wakes s (s.notify e) false := by
  unfold notify
  split
  · exact .of_eq rfl rfl rfl
  · exact .refl s

theorem wakes_finish (s : Session δ) (n : Nat) (r : Finish) : Wakes s (s.finish n r) false :=
  .of_eq rfl rfl rfl

theorem wakes_onPauseClock (s : Session δ)
    (f : Clock Float Alarm → Window Float × Clock Float Alarm) :
    Wakes s (s.onPauseClock f).2 false := by
  unfold onPauseClock
  split
  · exact .of_eq rfl rfl rfl
  · exact .of_eq rfl rfl rfl

theorem wakes_withdraw (s : Session δ) (id : Nat) : Wakes s (s.withdraw id) false := by
  unfold withdraw
  split
  -- The job that takes the place of a request is no errand either.
  · refine .of_eq rfl ?_ rfl
    show (s.ready.map _).filterMap Job.errand? = s.unbegun
    rw [List.filterMap_map]
    refine List.filterMap_congr fun j _ => ?_
    show (if j.begins id then Job.requestOff id else j).errand? = j.errand?
    cases j with
    | request i =>
        split
        · rfl
        · rfl
    | _ => rfl
  · split
    · exact .refl s
    · split
      · exact .refl s
      · split
        · exact .refl s
        · split
          · exact .of_eq rfl rfl rfl
          · exact (Wakes.of_eq rfl rfl rfl : Wakes s (s.setReply _ .withdrawn) false).trans
              (wakes_enqueue _ rfl)

theorem wakes_wakeAll (s : Session δ) (shown : Option Bool) : Wakes s (s.wakeAll shown) true := by
  have hwake : ∀ (t : Session δ) (w : Watcher), Wakes t (wake shown t w) false := by
    intro t w
    unfold wake
    extract_lets v
    have hv : Wakes t v false := by
      simp only [v]
      split
      · exact .of_eq rfl rfl rfl
      · exact .refl t
    exact hv.trans (wakes_enqueue v rfl)
  have hnone : Wakes s { s with watchers := [] } true := ⟨rfl, rfl, rfl⟩
  have hall := hnone.trans (Wakes.foldl hwake s.watchers { s with watchers := [] })
  rwa [Bool.true_or] at hall

theorem wakes_wakeIdlers (s : Session δ) (id : Nat) : Wakes s (s.wakeIdlers id) false := by
  unfold wakeIdlers
  split
  rename_i woken others _
  have hothers : Wakes s { s with idlers := others } false := .of_eq rfl rfl rfl
  have hidle : ∀ (t : Session δ) (w : Nat × Nat), Wakes t (t.enqueue (.idle w.1)) false :=
    fun t w => wakes_enqueue t rfl
  have hall := hothers.trans (Wakes.foldl hidle woken { s with idlers := others })
  rwa [List.any_eq_false.mpr fun _ _ => Bool.false_ne_true] at hall

variable [Subject δ]

theorem wakes_performPreview (s : Session δ) (e : Preview.Effect) :
    Wakes s (s.performPreview e) e.tells := by
  have hwindow : ∀ f, Wakes s
      { (s.onPauseClock f).2 with previewWindow := (s.onPauseClock f).1 } false := fun f =>
    (s.wakes_onPauseClock f).trans (.of_eq rfl rfl rfl)
  cases e with
  | notice n => exact wakes_notify s _
  | restartWindow => exact hwindow fun c => s.previewWindow.restart c .previewPause
  | stopWindow => exact hwindow s.previewWindow.stop
  | start n => exact wakes_enqueue s rfl
  | withdraw id => exact wakes_withdraw s id
  | releaseWatchers => exact wakes_wakeAll s _
  | dropWatchers => exact wakes_wakeAll s _

/-- Those who wait are told exactly by the moves that do so. -/
theorem wakes_takePreview (s : Session δ) (m : Preview.Move) :
    Wakes s (s.takePreview (s.preview.move m)) m.tells := by
  have hmoved : Wakes s { s with preview := (s.preview.move m).1 } false := .of_eq rfl rfl rfl
  have hall := hmoved.trans (Wakes.foldl wakes_performPreview (s.preview.move m).2 _)
  rwa [s.preview.any_tells_move m, Bool.false_or] at hall

theorem wakes_takeSubject (s : Session δ) (subject : δ) (effects : List Editor.Effect) :
    Wakes s (s.takeSubject subject effects) ((ordered effects).any Preview.Move.tells) := by
  have hwindow : ∀ (t : Session δ) f, Wakes t
      { (t.onPauseClock f).2 with historyWindow := (t.onPauseClock f).1 } false := fun t f =>
    (t.wakes_onPauseClock f).trans (.of_eq rfl rfl rfl)
  have hperform : ∀ (t : Session δ) (e : Editor.Effect),
      Wakes t (t.perform e) ((ordered [e]).any Preview.Move.tells) := by
    intro t e
    cases e with
    | announce state => exact wakes_notify t _
    | preview o =>
        have ho := t.wakes_takePreview (.order o)
        rwa [← Bool.or_false (Preview.Move.order o).tells] at ho
    | history e =>
        cases e with
        | changed => exact wakes_notify t _
        | restartWindow => exact hwindow t fun c => t.historyWindow.restart c .historyPause
        | stopWindow => exact hwindow t t.historyWindow.stop
  have hsplit : (ordered effects).any Preview.Move.tells =
      effects.any fun e => (ordered [e]).any Preview.Move.tells := by
    induction effects with
    | nil => rfl
    | cons e es ih =>
        rw [ordered_cons, List.any_append, List.any_cons, ih]
  have hsubject : Wakes s { s with subject } false := .of_eq rfl rfl rfl
  have hall := hsubject.trans (Wakes.foldl hperform effects { s with subject })
  rwa [← hsplit, Bool.false_or] at hall

theorem wakes_conclude (s : Session δ) (asker : Asker) (outcome : Preview.Outcome) :
    Wakes s (s.conclude asker outcome) false := by
  cases asker with
  | preview id => exact (s.wakes_takePreview (.settle id outcome)).trans (wakes_wakeIdlers _ id)
  | errand n guarded => exact wakes_finish s n _

theorem wakes_call (s : Session δ) (asker : Asker) (ask : Ask) :
    Wakes s (s.call asker ask) false := by
  have hlog : Wakes s (s.log (.generate ask)) false := .of_eq rfl rfl rfl
  unfold call
  cases s.generator with
  | addresses a => exact s.wakes_conclude asker _
  | echo => exact hlog.trans (wakes_conclude _ asker _)
  | failing text => exact hlog.trans (wakes_conclude _ asker _)
  | byHand stubborn => exact .of_eq rfl rfl rfl

theorem wakes_resume (s : Session δ) (n : Nat) (announces : Bool) (shown : Option Bool) :
    Wakes s (s.resume n announces shown) false := by
  unfold resume
  split
  · exact wakes_finish s n _
  · split
    · split
      · exact wakes_finish s n _
      · exact wakes_finish s n _
      · exact (wakes_notify s _).trans (wakes_finish _ n _)
    · exact wakes_finish s n _

end

/-! ## Jobs -/

/-- The errand that quits waiting at a time. -/
def Alarm.quitter? : Alarm → Option Nat
  | .late n => some n
  | _ => none

/-- The errand that quits waiting when a job runs. -/
def quitterOf? (s : Session Editor) : Job Editor → Option Nat
  | .alarm serial a => if s.waits.isCancelled serial then none else a.quitter?
  | _ => none

/-- The errand that quits waiting when something happens. -/
def quitter? (s : Session Editor) : Happening → Option Nat
  | .run place => (s.ready[place]?).bind s.quitterOf?
  | .ring a => a.quitter?
  | _ => none

/-- Whether a session is as running a job may leave another one: those who wait are told or not, one
of them may quit, and an errand that begins may wait from now on. -/
structure Runs (s t : Session Editor) (told : Bool) (quitter begun : Option Nat) : Prop where
  errands : t.errands = s.errands
  unbegun : t.unbegun = s.unbegun
  waiting : ∃ fresh : List Nat, fresh.Sublist begun.toList ∧
    t.waiting = (if told then [] else s.waiting.filter (quitter ≠ some ·)) ++ fresh

variable {s t u : Session Editor} {told : Bool}

theorem Wakes.waiting (h : Wakes s t told) : t.waiting = if told then [] else s.waiting := by
  unfold Session.waiting
  rw [h.watchers]
  split <;> rfl

/-- If nobody quits all go on waiting. -/
theorem filter_none_ne (ns : List Nat) : ns.filter ((none : Option Nat) ≠ some ·) = ns :=
  List.filter_eq_self.mpr fun n _ => decide_eq_true (Option.some_ne_none n).symm

theorem Wakes.runs (h : Wakes s t told) (begun : Option Nat) : Runs s t told none begun where
  errands := h.errands
  unbegun := h.unbegun
  waiting := by
    refine ⟨[], List.nil_sublist _, ?_⟩
    rw [h.waiting, List.append_nil, filter_none_ne]

/-- Who begins to wait waits behind the others, if there is any time for it. -/
theorem waiting_watch (s : Session Editor) (n : Nat) (announces : Bool) (timeout : Option Float) :
    (s.watch n announces timeout).waiting =
      s.waiting ++ if timeout.any (· ≤ 0.0) then [] else [n] := by
  unfold watch
  cases timeout with
  | none => exact List.map_append
  | some seconds =>
      by_cases hlate : seconds ≤ 0.0
      · simp only [Option.any_some, hlate, decide_true, if_true, List.append_nil]
        rfl
      · simp only [Option.any_some, hlate, decide_false, if_false, Bool.false_eq_true]
        exact List.map_append

theorem Wakes.watch (h : Wakes s t told) (n : Nat) (announces : Bool) (timeout : Option Float) :
    Runs s (t.watch n announces timeout) told none (some n) := by
  have hwatch : (t.watch n announces timeout).errands = t.errands ∧
      (t.watch n announces timeout).unbegun = t.unbegun := by
    unfold Session.watch
    split
    · exact ⟨rfl, rfl⟩
    · split
      · exact ⟨rfl, (wakes_enqueue t rfl).unbegun⟩
      · exact ⟨rfl, rfl⟩
  refine ⟨hwatch.1.trans h.errands, hwatch.2.trans h.unbegun,
    if timeout.any (· ≤ 0.0) then [] else [n], ?_, ?_⟩
  · split
    · exact List.nil_sublist _
    · exact List.Sublist.refl _
  · rw [waiting_watch, h.waiting, filter_none_ne]

theorem any_tells_concluded (outcome : Preview.Outcome) (asker : Asker) :
    (concluded outcome asker).any Preview.Move.tells = false := by
  cases asker with
  | preview id => rfl
  | errand n guarded => rfl

theorem any_tells_called (s : Session Editor) (asker : Asker) (ask : Ask) :
    (s.called asker ask).any Preview.Move.tells = false := by
  unfold called
  split
  · exact any_tells_concluded _ asker
  · exact any_tells_concluded _ asker
  · exact any_tells_concluded _ asker
  · rfl

theorem runs_ring (s : Session Editor) (a : Alarm) :
    Runs s (s.ring a) ((s.rung a).any Preview.Move.tells) a.quitter? none := by
  cases a with
  | previewPause =>
      have hended : Wakes s { s with previewWindow := s.previewWindow.ended } false :=
        .of_eq rfl rfl rfl
      exact (hended.trans (wakes_takePreview _ .pauseOver)).runs none
  | historyPause =>
      have hended : Wakes s { s with historyWindow := s.historyWindow.ended } false :=
        .of_eq rfl rfl rfl
      have hall := hended.trans (wakes_takeSubject { s with historyWindow := s.historyWindow.ended }
        (Subject.pauseOver s.subject).1 (Subject.pauseOver s.subject).2)
      rw [Bool.false_or] at hall
      exact hall.runs none
  | late n =>
      show Runs s (s.ring (.late n)) false (some n) none
      have hothers : s.waiting.filter (some n ≠ some ·) =
          (s.watchers.filter (·.errand ≠ n)).map (·.errand) := by
        unfold waiting
        rw [List.filter_map]
        congr 2
        funext w
        simp [eq_comm]
      simp only [ring]
      split
      · rename_i hnone
        refine ⟨rfl, rfl, [], List.nil_sublist _, ?_⟩
        have hall : s.watchers.filter (·.errand ≠ n) = s.watchers :=
          List.filter_eq_self.mpr fun w hw => by simpa using List.find?_eq_none.mp hnone w hw
        rw [hothers, hall]
        exact (List.append_nil _).symm
      · refine ⟨rfl, (wakes_enqueue _ rfl).unbegun, [], List.nil_sublist _, ?_⟩
        rw [hothers]
        exact (List.append_nil _).symm

theorem runs_begin (s : Session Editor) (n : Nat) (e : Errand Editor) :
    Runs s (s.begin n e) ((s.ran (.errand n e)).any Preview.Move.tells) none (some n) := by
  cases e with
  | fetch ask guarded =>
      show Runs s (s.begin n (.fetch ask guarded)) false none (some n)
      simp only [begin]
      split
      · exact (s.wakes_finish n _).runs _
      · exact (s.wakes_call _ _).runs _
  | awaitShown timeout => exact (Wakes.refl s).watch n false timeout
  | awaitIdle =>
      show Runs s (s.begin n .awaitIdle) false none (some n)
      simp only [begin]
      split
      · exact (s.wakes_finish n _).runs _
      · rename_i id _
        have hidle : Wakes s { s with idlers := s.idlers ++ [(n, id)] } false := .of_eq rfl rfl rfl
        exact hidle.runs _
  | change act timeout =>
      have htaken := s.wakes_takeSubject (act s.subject).2.1 (act s.subject).2.2
      have hfinished := fun r => htaken.trans (wakes_finish _ n r)
      rw [Bool.or_false] at hfinished
      show Runs s _ ((ordered (act s.subject).2.2).any Preview.Move.tells) none (some n)
      simp only [begin]
      split
      · exact (hfinished _).runs _
      · exact (hfinished _).runs _
      · exact htaken.watch n true (some timeout)

/-- Only an errand that begins may wait after a job runs and not before. -/
theorem runs_runJob (s : Session Editor) (j : Job Editor) :
    Runs s (s.runJob j) ((s.ran j).any Preview.Move.tells) (s.quitterOf? j) j.errand? := by
  cases j with
  | request id =>
      cases hask : s.subject.previewAsk with
      | error x =>
          rw [s.runJob_request_error hask id, ran, hask]
          exact (s.wakes_conclude _ _).runs none
      | ok a =>
          rw [s.runJob_request_ok hask id, ran, hask]
          dsimp only
          rw [any_tells_called]
          exact (s.wakes_call _ a).runs none
  | requestOff id => exact (s.wakes_conclude (.preview id) .withdrawn).runs none
  | errand n e => exact s.runs_begin n e
  | reply call =>
      simp only [runJob, ran]
      cases s.calls[call]? with
      | none => exact (Wakes.refl s).runs none
      | some c =>
          dsimp only
          rw [any_tells_concluded]
          exact (s.wakes_conclude _ _).runs none
  | alarm serial a =>
      simp only [runJob, ran, quitterOf?]
      split
      · exact (Wakes.refl s).runs none
      · exact s.runs_ring a
  | idle n => exact (s.wakes_finish n .done).runs none
  | lateNext n announces =>
      have hnext : Wakes s (s.enqueue (.resume n announces (some false))) false :=
        s.wakes_enqueue rfl
      exact hnext.runs none
  | resume n announces shown => exact (s.wakes_resume n announces shown).runs none

/-! ## Runs -/

/-- Whether a session is another one before a job runs: an errand that begins is out of line, or one
was sent under a new number. -/
inductive Readies (s u : Session Editor) : Option Nat → Prop where
  | takes {begun : Option Nat} (errands : u.errands = s.errands)
      (unbegun : (begun.toList ++ u.unbegun).Perm s.unbegun) : Readies s u begun
  | sends (errands : u.errands = s.errands + 1)
      (unbegun : u.unbegun = s.unbegun ++ [s.errands + 1]) : Readies s u none

theorem Readies.refl (s : Session Editor) : Readies s s none := .takes rfl (.refl _)

/-- A job that is taken out of line takes its number along. -/
theorem perm_unbegun (s : Session Editor) {place : Nat} {j : Job Editor}
    (hj : s.ready[place]? = some j) :
    (j.errand?.toList ++ { s with ready := s.ready.eraseIdx place }.unbegun).Perm s.unbegun := by
  obtain ⟨hplace, rfl⟩ := List.getElem?_eq_some_iff.mp hj
  have hperm := (List.getElem_cons_eraseIdx_perm hplace).filterMap Job.errand?
  rw [List.filterMap_cons] at hperm
  cases hn : (s.ready[place]).errand? with
  | none =>
      rw [hn] at hperm
      exact hperm
  | some n =>
      rw [hn] at hperm
      exact hperm

/-- Whatever happens comes to running a job. -/
theorem runs_happen (s : Session Editor) (h : Happening) :
    ∃ (u : Session Editor) (begun : Option Nat), Readies s u begun ∧ u.waiting = s.waiting ∧
      Runs u (s.happen h) ((s.moves h).any Preview.Move.tells) (s.quitter? h) begun := by
  cases h with
  | command c => exact ⟨s, none, .refl s, rfl, (s.wakes_takeSubject _ _).runs none⟩
  | send e =>
      have hsent : Wakes (s.send e).2 (s.send e).2 false := .refl _
      exact ⟨(s.send e).2, none, .sends rfl List.filterMap_append, rfl, hsent.runs none⟩
  | run place =>
      simp only [happen, moves, quitter?]
      cases hj : s.ready[place]? with
      | none => exact ⟨s, none, .refl s, rfl, (Wakes.refl s).runs none⟩
      | some j =>
          exact ⟨{ s with ready := s.ready.eraseIdx place }, j.errand?,
            .takes rfl (s.perm_unbegun hj), rfl, runs_runJob _ j⟩
  | ring a => exact ⟨s, none, .refl s, rfl, s.runs_ring a⟩
  | answer n outcome =>
      have hanswer : Wakes s (s.answer n outcome).2 false := by
        unfold answer
        split
        · exact .refl s
        · split
          · exact .refl s
          · split
            · exact .refl s
            · exact (Wakes.of_eq rfl rfl rfl : Wakes s (s.setReply _ outcome) false).trans
                (wakes_enqueue _ rfl)
      exact ⟨s, none, .refl s, rfl, hanswer.runs none⟩
  | serve generator =>
      have hserved : Wakes s { s with generator } false := .of_eq rfl rfl rfl
      exact ⟨s, none, .refl s, rfl, hserved.runs none⟩
  | pass scheduler waits due =>
      have hpassed : Wakes s (s.happen (.pass scheduler waits due)) false := by
        refine .of_eq rfl ?_ rfl
        let alarms : List (Job Editor) := due.map fun t => .alarm t.1 t.2
        have hnone : alarms.filterMap Job.errand? = [] := by
          refine List.filterMap_eq_nil_iff.mpr fun j hj => ?_
          obtain ⟨t, -, rfl⟩ := List.mem_map.mp hj
          rfl
        show (s.ready ++ alarms).filterMap Job.errand? = s.unbegun
        rw [List.filterMap_append, hnone]
        exact List.append_nil _
      exact ⟨s, none, .refl s, rfl, hpassed.runs none⟩

/-- Whether each errand that waits or has not begun has a number of its own. -/
structure Numbered (s : Session Editor) : Prop where
  nodup : (s.unbegun ++ s.waiting).Nodup
  le : ∀ n ∈ s.unbegun ++ s.waiting, n ≤ s.errands

theorem Numbered.happen (hs : Numbered s) (h : Happening) : Numbered (s.happen h) := by
  obtain ⟨u, begun, hready, hwaiting, hruns⟩ := s.runs_happen h
  obtain ⟨fresh, hfresh, hwaits⟩ := hruns.waiting
  -- Who waits afterwards waited before or has just begun.
  have hless : ((s.happen h).unbegun ++ (s.happen h).waiting).Sublist
      (u.unbegun ++ (s.waiting ++ begun.toList)) := by
    rw [hruns.unbegun, hwaits, hwaiting]
    refine List.Sublist.append_left (List.Sublist.append ?_ hfresh) _
    split
    · exact List.nil_sublist _
    · exact List.filter_sublist
  suffices hall : (u.unbegun ++ (s.waiting ++ begun.toList)).Nodup ∧
      ∀ n ∈ u.unbegun ++ (s.waiting ++ begun.toList), n ≤ u.errands by
    refine ⟨hall.1.sublist hless, fun n hn => ?_⟩
    rw [hruns.errands]
    exact hall.2 n (hless.subset hn)
  cases hready with
  | takes herrands hunbegun =>
      have hperm : (u.unbegun ++ (s.waiting ++ begun.toList)).Perm (s.unbegun ++ s.waiting) := by
        refine .trans ?_ (hunbegun.append_right s.waiting)
        rw [← List.append_assoc, List.append_assoc begun.toList]
        exact List.perm_append_comm
      rw [herrands]
      exact ⟨hperm.nodup_iff.mpr hs.nodup, fun n hn => hs.le n (hperm.mem_iff.mp hn)⟩
  | sends herrands hunbegun =>
      have hperm : (u.unbegun ++ (s.waiting ++ [])).Perm
          ((s.errands + 1) :: (s.unbegun ++ s.waiting)) := by
        rw [hunbegun, List.append_nil, List.append_assoc]
        exact List.perm_middle
      have hnew : s.errands + 1 ∉ s.unbegun ++ s.waiting := fun h =>
        Nat.not_succ_le_self _ (hs.le _ h)
      refine ⟨hperm.nodup_iff.mpr (List.nodup_cons.mpr ⟨hnew, hs.nodup⟩), fun n hn => ?_⟩
      rw [herrands]
      rcases List.mem_cons.mp (hperm.mem_iff.mp hn) with rfl | hn
      · exact Nat.le_refl _
      · exact Nat.le_succ_of_le (hs.le n hn)

theorem Numbered.happenings (hs : Numbered s) (run : List Happening) :
    Numbered (s.happenings run) := by
  induction run generalizing s with
  | nil => exact hs
  | cons h run ih => exact ih (hs.happen h)

theorem numbered_session (e : Editor) (generator : Generator) (byHand : Bool) :
    Numbered (e.session generator byHand) :=
  ⟨List.nodup_nil, fun _ h => nomatch h⟩

/-- An errand that has begun waits as long as nobody is told and it does not quit. -/
theorem waits_happen {n : Nat} (hbegun : n ∉ s.unbegun) (hsent : n ≤ s.errands) (h : Happening) :
    (n ∈ (s.happen h).waiting ↔
      n ∈ s.waiting ∧ (s.moves h).any Preview.Move.tells = false ∧ s.quitter? h ≠ some n) ∧
    n ∉ (s.happen h).unbegun ∧ n ≤ (s.happen h).errands := by
  obtain ⟨u, begun, hready, hwaiting, hruns⟩ := s.runs_happen h
  obtain ⟨fresh, hfresh, hwaits⟩ := hruns.waiting
  have hother : n ∉ u.unbegun ∧ n ∉ begun.toList ∧ n ≤ u.errands := by
    cases hready with
    | takes herrands hunbegun =>
        have hnot := mt hunbegun.mem_iff.mp hbegun
        rw [List.mem_append, not_or] at hnot
        exact ⟨hnot.2, hnot.1, herrands ▸ hsent⟩
    | sends herrands hunbegun =>
        rw [hunbegun, herrands, List.mem_append, List.mem_singleton, not_or]
        exact ⟨⟨hbegun, by omega⟩, List.not_mem_nil, Nat.le_succ_of_le hsent⟩
  have hnew : n ∉ fresh := fun h => hother.2.1 (hfresh.subset h)
  refine ⟨?_, hruns.unbegun ▸ hother.1, hruns.errands ▸ hother.2.2⟩
  rw [hwaits, hwaiting, List.mem_append, or_iff_left hnew]
  cases (s.moves h).any Preview.Move.tells with
  | true => simp
  | false => simp

/-- The moves that the previews make in a run. -/
def movesOf (s : Session Editor) : List Happening → List Preview.Move
  | [] => []
  | h :: run => s.moves h ++ (s.happen h).movesOf run

/-- The errands that quit waiting in a run. -/
def quitters (s : Session Editor) : List Happening → List Nat
  | [] => []
  | h :: run => (s.quitter? h).toList ++ (s.happen h).quitters run

theorem preview_happenings (s : Session Editor) (run : List Happening) :
    (s.happenings run).preview = s.preview.moved (s.movesOf run) := by
  induction run generalizing s with
  | nil => rfl
  | cons h run ih =>
      show ((s.happen h).happenings run).preview = s.preview.moved (s.moves h ++ _)
      rw [ih, preview_happen, Preview.moved_append]

/-- An errand that has begun waits through a run as long as no move tells those who wait, and it
does not quit. -/
theorem waits_happenings {n : Nat} (hbegun : n ∉ s.unbegun) (hsent : n ≤ s.errands)
    (run : List Happening) : n ∈ (s.happenings run).waiting ↔
      n ∈ s.waiting ∧ (∀ m ∈ s.movesOf run, m.tells = false) ∧ n ∉ s.quitters run := by
  induction run generalizing s with
  | nil => simp [happenings, movesOf, quitters]
  | cons h run ih =>
      obtain ⟨hstep, hbegun, hsent⟩ := waits_happen hbegun hsent h
      show n ∈ ((s.happen h).happenings run).waiting ↔ _
      rw [ih hbegun hsent, hstep]
      simp only [movesOf, quitters, List.mem_append, Option.mem_toList, List.any_eq_false,
        Bool.not_eq_true, not_or, or_imp, forall_and]
      tauto

end Session

end Retouch
