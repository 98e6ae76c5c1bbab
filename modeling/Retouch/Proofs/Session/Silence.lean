/-
  What is heard after all was given up.

  Every occurrence keeps that the pauses and the requests up to a certain one were given up
  (`Sealed.occur`), and an order to give all up seals all that came before it (`Sealed.cancel`).  So
  afterwards no timer that was set before ends a pause, and of the requests that were started before
  only the latest can be heard, and only if its generator is stubborn and no other request has
  started since (`heard_after_cancel`).  It is heard then: withdrawing does not count up the
  requests, so the latest one before is still the latest (`heard_after_cancel_stubborn`).
-/
import Retouch.Proofs.Session.Withdrawn

namespace Retouch

namespace Preview

/-! ## What the end of a request tells -/

/-- What observers are told of what the latest request brings. -/
def said (p : Preview) : Outcome → List Notice
  | .withdrawn => []
  | .failed cause => [.loading false, .failed (failure cause)]
  | .url u => if p.lastUrl = some u then [.loading false] else [.shown u]

/-- A request that ends tells what it brings if it is under way and the latest, and it is not under
way any more. -/
theorem settle_told (p : Preview) (id : Nat) (outcome : Outcome) :
    (p.settle id outcome).2 =
        (if id ∈ p.running ∧ id = p.latest then p.said outcome else []).map .notice ∧
      ((p.settle id outcome).1.running = p.running.erase id ∨
        (p.settle id outcome).1.running = p.running) ∧
      (p.settle id outcome).1.latest = p.latest ∧
      (p.settle id outcome).1.current = p.current := by
  unfold settle
  by_cases hrunning : id ∈ p.running
  · simp only [hrunning, if_true, true_and]
    cases outcome with
    | withdrawn => simp [said]
    | failed cause =>
        by_cases hid : id = p.latest
        · simp [hid, said, setLoading]
        · simp [hid]
    | url u =>
        by_cases hid : id = p.latest
        · by_cases hlast : p.lastUrl = some u
          · simp [hid, hlast, said, setLoading]
          · simp [hid, hlast, said]
        · simp [hid]
  · simp [hrunning]

end Preview

namespace Session

variable {δ : Type}

/-! ## Sealed sessions -/

/-- Whether the requests up to one and the timers of pauses before another one were given up. -/
structure Sealed (gone old : Nat) (s : Session δ) : Prop where
  held : Held gone s
  paused : Paused old s

section

variable {gone old : Nat} {s t : Session δ}

theorem Sealed.aside (h : Sealed gone old s) (ha : Aside s t) : Sealed gone old t :=
  ⟨h.held.aside ha, h.paused.calm ha.toCalm⟩

theorem Sealed.answer (h : Sealed gone old s) (n : Nat) (outcome : Preview.Outcome) :
    Sealed gone old (s.answer n outcome).2 := by
  unfold Session.answer
  split
  · exact h
  · split
    · exact h
    · rename_i c hc
      split
      · exact h
      · rename_i hopen
        have ht : Sealed gone old (s.setReply _ outcome) :=
          ⟨h.held.answer hc (by simpa using hopen) outcome,
            h.paused.calm (.of_eq rfl rfl rfl rfl rfl)⟩
        exact ht.aside (aside_enqueue _ rfl rfl)

theorem sealed_fresh (hs : Fresh s) : Sealed 0 0 s := by
  have hstarts : s.starts = [] := by
    unfold starts
    rw [hs.ready]
    rfl
  have hrequests : s.requests = [] := by
    unfold requests
    rw [hstarts, hs.calls]
    rfl
  have hpauses : s.pauses = [] := by
    unfold pauses pausesOn
    rw [hs.scheduler, hs.waits, hs.ready]
    rfl
  refine ⟨⟨?_, ?_, ?_, fun id _ => ⟨?_, ?_⟩, Nat.zero_le _⟩, ⟨?_, ?_, ?_, Nat.zero_le _⟩⟩
  · rw [hrequests]
    exact List.nodup_nil
  · simp [hrequests]
  · simp [hstarts]
  · simp [hstarts]
  · simp [hs.calls]
  · rw [hpauses]
    exact List.nodup_nil
  · simp [hpauses]
  · simp [hpauses]

/-- Working a window leaves requests alone. -/
theorem onPauseClock_untouched (s : Session δ)
    (f : Clock Float Alarm → Window Float × Clock Float Alarm) :
    (s.onPauseClock f).2.preview = s.preview ∧ (s.onPauseClock f).2.starts = s.starts ∧
      (s.onPauseClock f).2.calls = s.calls := by
  unfold onPauseClock
  split
  · exact ⟨rfl, rfl, rfl⟩
  · exact ⟨rfl, rfl, rfl⟩

theorem Held.congr (h : Held gone s) (hpreview : t.preview = s.preview)
    (hstarts : t.starts = s.starts) (hcalls : t.calls = s.calls) : Held gone t := by
  have hrequests : t.requests = s.requests := by
    unfold requests
    rw [hstarts, hcalls]
  refine ⟨hrequests ▸ h.nodup, ?_, ?_, ?_, ?_⟩
  · rw [hrequests, hpreview]
    exact h.le
  · rw [hstarts, hpreview]
    exact h.begun
  · rw [hstarts, hcalls, hpreview]
    exact h.off
  · rw [hpreview]
    exact h.base

theorem Sealed.restart (h : Sealed gone old s) : Sealed gone old s.restartPreviewWindow :=
  have ⟨hpreview, hstarts, hcalls⟩ := s.onPauseClock_untouched
    fun c => s.previewWindow.restart c .previewPause
  ⟨h.held.congr hpreview hstarts hcalls, h.paused.restart⟩

theorem calm_preview (s : Session δ) (p : Preview) : Calm s { s with preview := p } :=
  .of_eq rfl rfl rfl rfl rfl

/-- Previews that differ in nothing that concerns requests. -/
theorem aside_preview (s : Session δ) {p : Preview} (hrunning : p.running = s.preview.running)
    (hlatest : p.latest = s.preview.latest) (hcurrent : p.current = s.preview.current) :
    Aside s { s with preview := p } where
  toCalm := s.calm_preview p
  running := hrunning
  latest := hlatest
  current := hcurrent
  starts := .refl _
  calls := rfl

/-- Where no pause is left to end, none is left when fewer are in line and more were cancelled. -/
theorem Calm.cancelled (h : Calm s t)
    (hall : ∀ p ∈ s.pauses, s.pauseClock.isCancelled p.2 = true) :
    ∀ p ∈ t.pauses, t.pauseClock.isCancelled p.2 = true :=
  fun p hp => h.clock.cancelled _ (hall p (h.pauses.subset hp))

theorem Sealed.mono (h : Sealed gone old s) {earlier : Nat} (hle : earlier ≤ gone) :
    Sealed earlier old s where
  held :=
    { h.held with
      off := fun id hid => h.held.off id (hid.imp_right fun hid => Nat.le_trans hid hle)
      base := Nat.le_trans hle h.held.base }
  paused := h.paused

/-- What is taken out of line takes along what it stands for. -/
theorem perm_filterMap_eraseIdx {α β : Type} (f : α → Option β) {as : List α} {place : Nat} {a : α}
    (ha : as[place]? = some a) :
    ((f a).toList ++ (as.eraseIdx place).filterMap f).Perm (as.filterMap f) := by
  obtain ⟨hplace, rfl⟩ := List.getElem?_eq_some_iff.mp ha
  have hperm := (List.getElem_cons_eraseIdx_perm hplace).filterMap f
  rw [List.filterMap_cons] at hperm
  cases hf : f as[place] with
  | none =>
      rw [hf] at hperm
      exact hperm
  | some b =>
      rw [hf] at hperm
      exact hperm

/-- A request that leaves the line stands there no more, and made no call. -/
theorem Held.notMem_of_start (h : Held gone s) {place : Nat} {j : Job δ} {id : Nat} {begins : Bool}
    (hj : s.ready[place]? = some j) (hstart : j.start? = some (id, begins)) :
    id ∉ ({ s with ready := s.ready.eraseIdx place } : Session δ).requests := by
  have hstarts := perm_filterMap_eraseIdx Job.start? hj
  rw [hstart] at hstarts
  have hperm : (id :: ({ s with ready := s.ready.eraseIdx place } : Session δ).requests).Perm
      s.requests := (hstarts.map Prod.fst).append_right _
  exact (List.nodup_cons.mp (hperm.nodup_iff.mpr h.nodup)).1

/-- A request that stands in line to begin is the current one, and no earlier one was given up. -/
theorem Held.current_of_mem (h : Held gone s) {id : Nat} (hid : (id, true) ∈ s.starts) :
    s.preview.current = some id ∧ gone < id := by
  have hnot := mt (h.off id) fun hoff => hoff.begins hid
  rw [not_or, not_not, Nat.not_le] at hnot
  exact hnot

/-- A request that made a call does not stand in line. -/
theorem Held.notMem_of_call (h : Held gone s) {c : Call} {id : Nat} (hc : c ∈ s.calls)
    (hid : c.request? = some id) : (id, true) ∉ s.starts := fun hmem =>
  (List.nodup_append.mp h.nodup).2.2 id (List.mem_map.mpr ⟨_, hmem, rfl⟩) id
    (List.mem_filterMap.mpr ⟨c, hc, hid⟩) rfl

/-- Telling who waits for the end of a request is not heard. -/
theorem events_wakeIdlers (s : Session δ) (id : Nat) : (s.wakeIdlers id).events = s.events := by
  have hfold : ∀ (es : List (Nat × Nat)) (t : Session δ),
      (es.foldl (fun s e => s.enqueue (.idle e.1)) t).events = t.events := by
    intro es
    induction es with
    | nil => exact fun _ => rfl
    | cons e es ih => exact fun t => ih _
  exact hfold _ _

variable [Subject δ]

/-! ## Moves of the previews -/

/-- A newer request takes the place of the current one when a pause ends. -/
theorem Sealed.pauseOver (h : Sealed gone old s) :
    Sealed gone old (s.takePreview s.preview.pauseOver) := by
  have hcommence := h.held.commence (u := { s with preview := s.preview.pauseOver.1 }) rfl rfl rfl
  exact ⟨hcommence.1, h.paused.calm ((s.calm_preview _).trans hcommence.2)⟩

theorem Sealed.flush (h : Sealed gone old s) : Sealed gone old (s.takePreview s.preview.flush) := by
  unfold Preview.flush
  split
  · let u := { s with preview := s.preview.pauseOver.1 }.stopPreviewWindow
    obtain ⟨hpreview, hstarts, hcalls⟩ := onPauseClock_untouched
      { s with preview := s.preview.pauseOver.1 } s.previewWindow.stop
    have hcommence := h.held.commence (u := u) hstarts hcalls hpreview
    exact ⟨hcommence.1, (h.paused.calm (s.calm_preview _)).stop.1.calm hcommence.2⟩
  · exact h

/-- An order to give all up seals all requests until then, and leaves no pause to end. -/
theorem Sealed.cancel (h : Sealed gone old s) :
    Sealed s.preview.latest old (s.order .cancel) ∧
      ∀ p ∈ (s.order .cancel).pauses, (s.order .cancel).pauseClock.isCancelled p.2 = true := by
  let u := { s with preview := s.preview.cancel.1 }.stopPreviewWindow
  let v := s.preview.withdrawCurrent.foldl performPreview u
  have hfold : s.order .cancel = v.performPreview .dropWatchers := List.foldl_append ..
  obtain ⟨hpreview, hstarts, hcalls⟩ := onPauseClock_untouched
    { s with preview := s.preview.cancel.1 } s.previewWindow.stop
  have hcancel := h.held.cancel (u := u) hstarts hcalls hpreview
  have hdrop : Aside v (v.performPreview .dropWatchers) := aside_wakeAll v none
  have hcalm : Calm u (s.order .cancel) := hfold ▸ Calm.trans hcancel.2 hdrop.toCalm
  obtain ⟨hstop, hall⟩ := (h.paused.calm (s.calm_preview s.preview.cancel.1)).stop
  exact ⟨⟨hfold ▸ hcancel.1.aside hdrop, hstop.calm hcalm⟩, hcalm.cancelled hall⟩

theorem Sealed.apply (h : Sealed gone old s) (o : Preview.Order) :
    Sealed gone old (s.takePreview (s.preview.apply o)) := by
  cases o with
  | schedule =>
      show Sealed gone old (s.takePreview s.preview.schedule)
      unfold Preview.schedule
      split
      · exact h.restart
      · let t := { s with preview := { s.preview with loading := true, scheduled := true } }
        have hloading : Aside s t := aside_preview s rfl rfl rfl
        exact (h.aside (hloading.trans (aside_notify t (.loading true)))).restart
  | flush => exact h.flush
  | reset => exact h.aside (aside_preview s rfl rfl rfl)
  | cancel => exact h.cancel.1.mono h.held.base
  | notifyLoaded =>
      let t := { s with preview := { s.preview with loading := false } }
      have hloading : Aside s t := aside_preview s rfl rfl rfl
      exact h.aside (hloading.trans ((aside_notify t (.loading false)).trans (aside_wakeAll _ _)))

/-! ## The end of a request -/

theorem notify_eq (s : Session δ) (e : Event) :
    s.notify e =
      { s with events := s.events ++ if Subject.listening s.subject then [e] else [] } := by
  unfold notify
  cases Subject.listening s.subject with
  | true => rfl
  | false => simp

/-- Observers are told one thing after the other. -/
theorem takePreview_notices (s : Session δ) (p : Preview) (ns : List Preview.Notice) :
    s.takePreview (p, ns.map .notice) =
      { s with
        preview := p
        events := s.events ++ if Subject.listening s.subject then ns.map eventOf else [] } := by
  have hfold : ∀ (ns : List Preview.Notice) (t : Session δ),
      (ns.map Preview.Effect.notice).foldl performPreview t =
        { t with events := t.events ++
            if Subject.listening t.subject then ns.map eventOf else [] } := by
    intro ns
    induction ns with
    | nil => simp
    | cons n ns ih =>
        intro t
        rw [List.map_cons, List.foldl_cons, ih,
          show t.performPreview (.notice n) = t.notify (eventOf n) from rfl, notify_eq]
        cases Subject.listening t.subject with
        | true => simp
        | false => simp
  exact hfold ns _

/-- What is heard of a request that ends. -/
theorem takePreview_settle (s : Session δ) (id : Nat) (outcome : Preview.Outcome) :
    s.takePreview (s.preview.settle id outcome) =
      { s with
        preview := (s.preview.settle id outcome).1
        events := s.events ++
          if Subject.listening s.subject ∧ id ∈ s.preview.running ∧ id = s.preview.latest then
            (s.preview.said outcome).map eventOf
          else [] } := by
  obtain ⟨htold, -⟩ := s.preview.settle_told id outcome
  generalize s.preview.settle id outcome = ended at htold
  obtain ⟨p, effects⟩ := ended
  obtain rfl : effects = _ := htold
  rw [takePreview_notices]
  congr 2
  cases Subject.listening s.subject with
  | true => simp only [true_and, if_true, apply_ite (List.map eventOf), List.map_nil]
  | false => simp

/-- A request that does not wait to begin may end. -/
theorem Sealed.settle (h : Sealed gone old s) {id : Nat} (hbegins : (id, true) ∉ s.starts)
    (outcome : Preview.Outcome) :
    Sealed gone old (s.takePreview (s.preview.settle id outcome)) := by
  obtain ⟨-, hrunning, hlatest, hcurrent⟩ := s.preview.settle_told id outcome
  rw [takePreview_settle]
  let t := { s with preview := (s.preview.settle id outcome).1 }
  have ht : Sealed gone old t :=
    ⟨h.held.settle hbegins hrunning hlatest hcurrent, h.paused.calm (s.calm_preview _)⟩
  exact ht.aside (.of_eq rfl rfl rfl rfl rfl rfl rfl)

theorem Sealed.takeSubject (h : Sealed gone old s) (subject : δ) (effects : List Editor.Effect) :
    Sealed gone old (s.takeSubject subject effects) := by
  have hperform : ∀ (t : Session δ) (e : Editor.Effect), Sealed gone old t →
      Sealed gone old (t.perform e) := by
    intro t e ht
    cases e with
    | announce state => exact ht.aside (aside_notify t _)
    | preview o => exact ht.apply o
    | history e =>
        cases e with
        | changed => exact ht.aside (aside_notify t _)
        | restartWindow => exact ht.aside t.aside_restartHistoryWindow
        | stopWindow => exact ht.aside t.aside_stopHistoryWindow
  have hfold : ∀ (es : List Editor.Effect) (t : Session δ), Sealed gone old t →
      Sealed gone old (es.foldl Session.perform t) := by
    intro es
    induction es with
    | nil => exact fun t ht => ht
    | cons e es ih => exact fun t ht => ih _ (hperform t e ht)
  exact hfold effects _ (h.aside (.of_eq rfl rfl rfl rfl rfl rfl rfl))

/-! ## Jobs -/

/-- Whoever waits for a call hears of it; a request among them does not wait to begin. -/
theorem Sealed.conclude (h : Sealed gone old s) {asker : Asker}
    (hasker : ∀ id, asker = .preview id → (id, true) ∉ s.starts) (outcome : Preview.Outcome) :
    Sealed gone old (s.conclude asker outcome) := by
  cases asker with
  | preview id => exact (h.settle (hasker id rfl) outcome).aside (aside_wakeIdlers _ id)
  | errand n guarded => exact h.aside (aside_finish s n _)

/-- The generator is called, by a request only if that one left the line to begin. -/
theorem Sealed.call (h : Sealed gone old s) {asker : Asker}
    (hasker : ∀ id, asker = .preview id → id ∉ s.requests ∧ id ≤ s.preview.latest ∧
      s.preview.current = some id ∧ gone < id) (ask : Ask) :
    Sealed gone old (s.call asker ask) := by
  have hbegins : ∀ id, asker = .preview id → (id, true) ∉ s.starts := by
    intro id hid hmem
    exact (hasker id hid).1 (List.mem_append_left _ (List.mem_map.mpr ⟨_, hmem, rfl⟩))
  have hlog : Sealed gone old (s.log (.generate ask)) := h.aside (aside_log s _)
  unfold Session.call
  cases s.generator with
  | addresses a => exact h.conclude hbegins _
  | echo => exact hlog.conclude hbegins _
  | failing text => exact hlog.conclude hbegins _
  | byHand stubborn =>
      refine ⟨hlog.held.call (c := { asker, stubborn }) fun id hid => hasker id ?_,
        hlog.paused.calm (.of_eq rfl rfl rfl rfl rfl)⟩
      cases asker with
      | preview i => exact congrArg Asker.preview (Option.some.inj hid)
      | errand n guarded => cases hid

/-- An alarm goes off; no pause is left to end if it ends one. -/
theorem Sealed.ring (h : Sealed gone old s) {a : Alarm}
    (hpause : a = .previewPause → ∀ p ∈ s.pauses, s.pauseClock.isCancelled p.2 = true) :
    Sealed gone old (s.ring a) := by
  cases a with
  | previewPause =>
      let t := { s with previewWindow := s.previewWindow.ended }
      have ht : Sealed gone old t :=
        ⟨h.held.congr rfl rfl rfl, h.paused.ended (hpause rfl)⟩
      exact ht.pauseOver
  | historyPause =>
      let t := { s with historyWindow := s.historyWindow.ended }
      have ht : Sealed gone old t := h.aside (.of_eq rfl rfl rfl rfl rfl rfl rfl)
      exact ht.takeSubject _ _
  | late n =>
      simp only [Session.ring]
      split
      · exact h
      · rename_i w _
        let t := { s with watchers := s.watchers.filter (·.errand ≠ n) }
        have ht : Aside s t := .of_eq rfl rfl rfl rfl rfl rfl rfl
        exact h.aside (ht.trans (aside_enqueue t rfl rfl))

theorem Sealed.begin (h : Sealed gone old s) (n : Nat) (e : Errand δ) :
    Sealed gone old (s.begin n e) := by
  cases e with
  | fetch ask guarded =>
      simp only [Session.begin]
      split
      · exact h.aside (aside_finish s n _)
      · exact h.call (fun _ hid => by cases hid) _
  | awaitShown timeout => exact h.aside (aside_watch s n false timeout)
  | awaitIdle =>
      simp only [Session.begin]
      split
      · exact h.aside (aside_finish s n _)
      · exact h.aside (.of_eq rfl rfl rfl rfl rfl rfl rfl)
  | change act timeout =>
      have htaken := h.takeSubject (act s.subject).2.1 (act s.subject).2.2
      simp only [Session.begin]
      split
      · exact htaken.aside (aside_finish _ n _)
      · exact htaken.aside (aside_finish _ n _)
      · exact htaken.aside (aside_watch _ n true (some timeout))

/-- A timer that comes out of line may end its pause, since it was not cancelled. -/
theorem Sealed.alarm (h : Sealed gone old s) {place serial : Nat} {a : Alarm}
    (hj : s.ready[place]? = some (.alarm serial a)) (hlive : s.waits.isCancelled serial = false) :
    Sealed gone old ({ s with ready := s.ready.eraseIdx place }.ring a) := by
  let u := { s with ready := s.ready.eraseIdx place }
  have hu : Sealed gone old u := h.aside (s.aside_eraseIdx place)
  refine hu.ring ?_
  rintro rfl
  -- The timers that are left are those of before without this one.
  have hline := perm_filterMap_eraseIdx Job.pause? hj
  have hperm : ((false, serial) :: u.pauses).Perm s.pauses := by
    refine .trans ?_ ((((hline.append_left (pausesOn s.waits)).map (false, ·))).append_left _)
    refine (List.perm_middle.symm.trans ?_)
    refine List.Perm.append_left _ ?_
    exact (List.perm_middle.symm.map (false, ·))
  have hbyHand : false = s.byHand := (h.paused.clock _ (hperm.subset List.mem_cons_self)).1
  refine h.paused.cancelled_of_perm (hbyHand ▸ hperm) ?_ rfl
  rw [pauseClock_of_not_byHand hbyHand]
  exact hlive

theorem Sealed.runJob (h : Sealed gone old s) {place : Nat} {j : Job δ}
    (hj : s.ready[place]? = some j) :
    Sealed gone old ({ s with ready := s.ready.eraseIdx place }.runJob j) := by
  let u := { s with ready := s.ready.eraseIdx place }
  have hu : Sealed gone old u := h.aside (s.aside_eraseIdx place)
  show Sealed gone old (u.runJob j)
  cases j with
  | request id =>
      have hnot : id ∉ u.requests := h.held.notMem_of_start hj rfl
      have hmem : (id, true) ∈ s.starts :=
        List.mem_filterMap.mpr ⟨_, List.mem_of_getElem? hj, rfl⟩
      obtain ⟨hcurrent, hgone⟩ := h.held.current_of_mem hmem
      have hle : id ≤ s.preview.latest :=
        h.held.le id (List.mem_append_left _ (List.mem_map.mpr ⟨_, hmem, rfl⟩))
      let v := { u with subject := (Subject.ask u.subject).2 }
      have hv : Sealed gone old v := hu.aside (.of_eq rfl rfl rfl rfl rfl rfl rfl)
      simp only [Session.runJob]
      split
      · refine hv.conclude (fun k hk hmem => hnot ?_) _
        cases hk
        exact List.mem_append_left _ (List.mem_map.mpr ⟨_, hmem, rfl⟩)
      · refine hv.call (fun k hk => ?_) _
        cases hk
        exact ⟨hnot, hle, hcurrent, hgone⟩
  | requestOff id =>
      have hnot : id ∉ u.requests := h.held.notMem_of_start hj rfl
      show Sealed gone old (u.conclude (.preview id) .withdrawn)
      refine hu.conclude (fun k hk hmem => hnot ?_) _
      cases hk
      exact List.mem_append_left _ (List.mem_map.mpr ⟨_, hmem, rfl⟩)
  | errand n e => exact hu.begin n e
  | reply call =>
      simp only [Session.runJob]
      cases hc : u.calls[call]? with
      | none => exact hu
      | some c =>
          refine hu.conclude (fun k hk => ?_) _
          refine hu.held.notMem_of_call (List.mem_of_getElem? hc) ?_
          unfold Call.request?
          rw [hk]
  | alarm serial a =>
      simp only [Session.runJob]
      split
      · exact hu
      · rename_i hlive
        exact h.alarm hj (by simpa using hlive)
  | idle n => exact hu.aside (aside_finish u n .done)
  | lateNext n announces => exact hu.aside (aside_enqueue u rfl rfl)
  | resume n announces shown => exact hu.aside (aside_resume u n announces shown)

/-! ## Occurrences -/

/-- A timer that is due joins the line with its pause. -/
theorem aside_due (s : Session δ) (place : Nat) : Aside s (s.occur (.due place)) := by
  simp only [occur]
  split
  · exact .refl s
  · rename_i t ht
    let u : Session δ := { s with
      waits := { s.waits with line := s.waits.line.eraseIdx place }
      ready := s.ready ++ [.alarm t.serial t.action] }
    have hpause : (Job.alarm t.serial t.action : Job δ).pause? = pauseOf? t := by
      unfold Job.pause? pauseOf?
      cases t.action <;> rfl
    have hready : u.ready.filterMap Job.pause? =
        s.ready.filterMap Job.pause? ++ (pauseOf? t).toList := by
      show (s.ready ++ [Job.alarm t.serial t.action]).filterMap Job.pause? = _
      rw [List.filterMap_append, List.filterMap_cons, hpause]
      cases pauseOf? t <;> rfl
    have hpauses : (pausesOn u.waits ++ u.ready.filterMap Job.pause?).Perm
        (pausesOn s.waits ++ s.ready.filterMap Job.pause?) := by
      rw [hready, ← List.append_assoc]
      refine List.perm_append_comm.trans ?_
      rw [← List.append_assoc]
      exact (perm_filterMap_eraseIdx pauseOf? ht).append_right _
    show Aside s u
    refine { (Aside.clocks s (.refl s.scheduler) (.erase s.waits place)) with
      pauses := (((hpauses.map (false, ·))).append_left _).subperm
      starts := ?_ }
    show (s.ready ++ [Job.alarm t.serial t.action]).filterMap Job.start? |>.Sublist s.starts
    rw [List.filterMap_append, List.filterMap_cons_none rfl, List.filterMap_nil, List.append_nil]
    exact .refl _

/-- A timer on the clock by hand comes due. -/
theorem Sealed.tick (h : Sealed gone old s) (place : Nat) :
    Sealed gone old (s.occur (.tick place)) := by
  simp only [Session.occur]
  split
  · exact h
  · rename_i t ht
    let u := { s with scheduler := { s.scheduler with line := s.scheduler.line.eraseIdx place } }
    have hu : Sealed gone old u :=
      h.aside (Aside.clocks s (.erase s.scheduler place) (.refl s.waits))
    split
    · exact hu
    · rename_i hlive
      refine hu.ring fun hpause => ?_
      have hline := perm_filterMap_eraseIdx pauseOf? ht
      have hserial : pauseOf? t = some t.serial := by
        unfold pauseOf?
        rw [hpause]
      rw [hserial] at hline
      have hperm : ((true, t.serial) :: u.pauses).Perm s.pauses :=
        (hline.map (true, ·)).append_right _
      have hbyHand : true = s.byHand := (h.paused.clock _ (hperm.subset List.mem_cons_self)).1
      have hclock : s.pauseClock = s.scheduler := pauseClock_of_byHand hbyHand
      have hclock' : u.pauseClock = u.scheduler := pauseClock_of_byHand hbyHand
      refine h.paused.cancelled_of_perm (hbyHand ▸ hperm) ?_ ?_
      · rw [hclock]
        simpa using hlive
      · rw [hclock, hclock']
        rfl

theorem Sealed.occur (h : Sealed gone old s) (o : Occurrence δ) : Sealed gone old (s.occur o) := by
  cases o with
  | order o => exact h.apply o
  | edit subject effects => exact h.takeSubject subject effects
  | send e =>
      let t := { s with errands := s.errands + 1 }
      have ht : Aside s t := .of_eq rfl rfl rfl rfl rfl rfl rfl
      exact h.aside (ht.trans (aside_enqueue t rfl rfl))
  | answer n outcome => exact h.answer n outcome
  | serve generator => exact h.aside (.of_eq rfl rfl rfl rfl rfl rfl rfl)
  | run place =>
      simp only [Session.occur]
      split
      · exact h
      · rename_i j hj
        exact h.runJob hj
  | due place => exact h.aside (aside_due s place)
  | tick place => exact h.tick place
  | pass scheduler waits =>
      exact h.aside (Aside.clocks s ⟨.refl _, Nat.le_refl _, fun _ => id⟩
        ⟨.refl _, Nat.le_refl _, fun _ => id⟩)

theorem Sealed.course (h : Sealed gone old s) (os : List (Occurrence δ)) :
    Sealed gone old (s.course os) := by
  induction os generalizing s with
  | nil => exact h
  | cons o os ih => exact ih (h.occur o)

/-! ## What is heard afterwards -/

/-- The timer of a pause before a preview whose time has come in an occurrence. -/
def pauseTimer? (s : Session δ) : Occurrence δ → Option Nat
  | .run place => (s.ready[place]?).bind Job.pause?
  | .tick place => (s.scheduler.line[place]?).bind pauseOf?
  | _ => none

/-- The request that a job begins or ends. -/
def requestOf? (s : Session δ) : Job δ → Option Nat
  | .request id | .requestOff id => some id
  | .reply call => (s.calls[call]?).bind Call.request?
  | _ => none

/-- The request that begins or ends in an occurrence. -/
def speaker? (s : Session δ) : Occurrence δ → Option Nat
  | .run place => (s.ready[place]?).bind s.requestOf?
  | _ => none

/-- A timer of a pause that was given up is passed over: nothing is heard and nothing starts. -/
theorem Paused.passed (h : Paused old s) {o : Occurrence δ} {n : Nat}
    (hn : s.pauseTimer? o = some n) (hlt : n < old) :
    (s.occur o).preview = s.preview ∧ (s.occur o).starts = s.starts ∧
      (s.occur o).events = s.events := by
  have hcancelled : ∀ byHand, (byHand, n) ∈ s.pauses → s.pauseClock.isCancelled n = true := by
    intro byHand hmem
    cases hlive : s.pauseClock.isCancelled n with
    | true => rfl
    | false => exact absurd (h.live _ hmem hlive).2 (Nat.not_le.mpr hlt)
  cases o with
  | run place =>
      obtain ⟨j, hj, hpause⟩ := Option.bind_eq_some_iff.mp hn
      obtain ⟨a, rfl⟩ : ∃ a, j = .alarm n a := by
        cases j with
        | alarm serial a =>
            cases a with
            | previewPause => exact ⟨_, congrArg (Job.alarm · _) (Option.some.inj hpause)⟩
            | historyPause => cases hpause
            | late k => cases hpause
        | _ => cases hpause
      have hmem : (false, n) ∈ s.pauses :=
        List.mem_append_right _ (List.mem_map.mpr ⟨n, List.mem_append_right _
          (List.mem_filterMap.mpr ⟨_, List.mem_of_getElem? hj, hpause⟩), rfl⟩)
      have hclock : s.pauseClock = s.waits := pauseClock_of_not_byHand (h.clock _ hmem).1
      have hwaits : s.waits.isCancelled n = true := hclock ▸ hcancelled _ hmem
      have hoccur : s.occur (.run place) = { s with ready := s.ready.eraseIdx place } := by
        simp only [occur, hj, runJob, hwaits, if_true]
      rw [hoccur]
      refine ⟨rfl, ?_, rfl⟩
      exact ((List.eraseIdx_sublist _ _).filterMap Job.start?).eq_of_length
        (perm_filterMap_eraseIdx Job.start? hj).length_eq
  | tick place =>
      obtain ⟨t, ht, hpause⟩ := Option.bind_eq_some_iff.mp hn
      obtain rfl : t.serial = n := by
        unfold pauseOf? at hpause
        split at hpause
        · exact Option.some.inj hpause
        · cases hpause
      have hmem : (true, t.serial) ∈ s.pauses :=
        List.mem_append_left _ (List.mem_map.mpr ⟨_, List.mem_filterMap.mpr
          ⟨t, List.mem_of_getElem? ht, hpause⟩, rfl⟩)
      have hclock : s.pauseClock = s.scheduler := pauseClock_of_byHand (h.clock _ hmem).1
      have hscheduler : s.scheduler.isCancelled t.serial = true := hclock ▸ hcancelled _ hmem
      have hoccur : s.occur (.tick place) = { s with
          scheduler := { s.scheduler with line := s.scheduler.line.eraseIdx place } } := by
        simp only [occur, ht, hscheduler, if_true]
      rw [hoccur]
      exact ⟨rfl, rfl, rfl⟩
  | _ => cases hn

/-- What is heard of a request that ends. -/
theorem events_conclude (s : Session δ) (id : Nat) (outcome : Preview.Outcome) :
    (s.conclude (.preview id) outcome).events = s.events ++
      if Subject.listening s.subject ∧ id ∈ s.preview.running ∧ id = s.preview.latest then
        (s.preview.said outcome).map eventOf
      else [] := by
  have hsettle := congrArg Session.events (s.takePreview_settle id outcome)
  exact (events_wakeIdlers _ id).trans hsettle

/-- Of a request that is withdrawn nothing is heard. -/
theorem events_conclude_withdrawn (s : Session δ) (id : Nat) :
    (s.conclude (.preview id) .withdrawn).events = s.events := by
  have hsaid : (s.preview.said .withdrawn).map eventOf = [] := rfl
  rw [events_conclude, hsaid, ite_self, List.append_nil]

theorem asker_of_request? {c : Call} {id : Nat} (h : c.request? = some id) :
    c.asker = .preview id := by
  unfold Call.request? at h
  split at h
  · rename_i k hk
    rw [hk, Option.some.inj h]
  · cases h

/-- Of a request that was given up nothing is heard, unless it is the latest and its generator is
stubborn. -/
theorem Held.heard (h : Held gone s) {o : Occurrence δ} {id : Nat} (hid : s.speaker? o = some id)
    (hle : id ≤ gone) :
    (s.occur o).events = s.events ∨
      s.preview.latest = id ∧ ∃ c outcome, c ∈ s.calls ∧ c.request? = some id ∧
        c.stubborn = true ∧ c.reply = some outcome ∧ outcome ≠ .withdrawn ∧
        (s.occur o).events = s.events ++ (s.preview.said outcome).map eventOf := by
  cases o with
  | run place =>
      obtain ⟨j, hj, hrequest⟩ := Option.bind_eq_some_iff.mp hid
      let u := { s with ready := s.ready.eraseIdx place }
      have hoccur : s.occur (.run place) = u.runJob j := by
        simp only [occur, hj]
        rfl
      rw [hoccur]
      have hoff := h.off id (.inr hle)
      cases j with
      | request k =>
          obtain rfl : k = id := Option.some.inj hrequest
          have hmem : (k, true) ∈ s.starts :=
            List.mem_filterMap.mpr ⟨_, List.mem_of_getElem? hj, rfl⟩
          exact absurd hmem hoff.begins
      | requestOff k => exact .inl (events_conclude_withdrawn u k)
      | reply call =>
          obtain ⟨c, hc, hasker⟩ := Option.bind_eq_some_iff.mp hrequest
          have hmem : c ∈ s.calls := List.mem_of_getElem? hc
          have hrun : u.runJob (.reply call) =
              u.conclude (.preview id) (c.reply.getD .withdrawn) := by
            simp only [runJob, show u.calls[call]? = some c from hc, asker_of_request? hasker]
          rw [hrun]
          -- A call that brings nothing, or that the request was withdrawn, is not heard.
          by_cases hsilent : c.reply.getD .withdrawn = .withdrawn
          · rw [hsilent]
            exact .inl (events_conclude_withdrawn u id)
          obtain ⟨outcome, hreply, hne⟩ :
              ∃ outcome, c.reply = some outcome ∧ outcome ≠ .withdrawn := by
            cases hreply : c.reply with
            | none => exact absurd (by rw [hreply]; rfl) hsilent
            | some outcome =>
                rw [hreply] at hsilent
                exact ⟨outcome, rfl, hsilent⟩
          rw [events_conclude, hreply, Option.getD_some]
          by_cases hheard : Subject.listening u.subject ∧ id ∈ u.preview.running ∧
              id = u.preview.latest
          · rw [if_pos hheard]
            rcases hoff.calls c hmem hasker with hstubborn | hwithdrawn | hended
            · exact .inr ⟨hheard.2.2.symm, c, outcome, hmem, hasker, hstubborn, hreply, hne, rfl⟩
            · exact absurd (Option.some.inj (hreply.symm.trans hwithdrawn)) hne
            · exact absurd hheard.2.1 hended
          · rw [if_neg hheard]
            exact .inl (List.append_nil _)
      | _ => cases hrequest
  | _ => cases hid

/-- **What is heard after all was given up.**  In every course of a session, whatever its generator
does when a request is withdrawn, after an order to give all up: a timer of a pause that was set
before is passed over, so nothing is heard of it and no request starts; and of a request that was
started before nothing is heard, unless it was the latest then and still is, and made a call that a
stubborn generator answers in spite of all.  Then it is heard as if nothing had been given up. -/
theorem heard_after_cancel {start : Session δ} (hstart : Fresh start)
    (before after : List (Occurrence δ)) (o : Occurrence δ) :
    let s := (start.course before).order .cancel
    let t := s.course after
    (∀ n, t.pauseTimer? o = some n → n < s.pauseClock.count →
      (t.occur o).preview = t.preview ∧ (t.occur o).starts = t.starts ∧
        (t.occur o).events = t.events) ∧
      ∀ id, t.speaker? o = some id → id ≤ s.preview.latest →
        (t.occur o).events = t.events ∨
          (id = s.preview.latest ∧ t.preview.latest = id ∧
            ∃ c outcome, c ∈ t.calls ∧ c.request? = some id ∧ c.stubborn = true ∧
              c.reply = some outcome ∧ outcome ≠ .withdrawn ∧
              (t.occur o).events = t.events ++ (t.preview.said outcome).map eventOf) := by
  intro s t
  have hbefore : Sealed 0 0 (start.course before) := (sealed_fresh hstart).course before
  obtain ⟨hcancel, hall⟩ := hbefore.cancel
  have hlatest : s.preview.latest = (start.course before).preview.latest := by
    have hmoved := ((start.course before).frames_takePreview (.order .cancel)).preview
    exact (congrArg Preview.latest hmoved).trans rfl
  have ht : Sealed s.preview.latest s.pauseClock.count t :=
    Sealed.course ⟨hlatest ▸ hcancel.held, hcancel.paused.of_cancelled hall⟩ after
  refine ⟨fun n hn hlt => ht.paused.passed hn hlt, fun id hid hle => ?_⟩
  refine (ht.held.heard hid hle).imp_right ?_
  rintro ⟨hid', hheard⟩
  exact ⟨Nat.le_antisymm hle (hid' ▸ ht.held.base), hid', hheard⟩

end

/-- A session with a generator that answers also when it is called off. -/
def stubbornSession : Session Sample :=
  ({ path := none, listening := true } : Sample).session (.byHand true) true 300.0

/-- A preview is asked for and given up while it waits for the pause. -/
def givenUp : Session Sample := (stubbornSession.course [.order .schedule]).order .cancel

/-- A preview is asked for, its request begins and is given up, and the generator answers. -/
def answeredLate : Session Sample :=
  ((stubbornSession.course [.order .schedule, .order .flush, .run 0]).order .cancel).course
    [.answer 1 (.url "u")]

/-- A timer that was cancelled is passed over, and a stubborn generator is heard. -/
theorem heard_after_cancel_stubborn :
    (givenUp.pauseTimer? (.tick 0) = some 0 ∧ (givenUp.occur (.tick 0)).preview = givenUp.preview) ∧
      answeredLate.speaker? (.run 0) = some 1 ∧
      (answeredLate.occur (.run 0)).events = answeredLate.events ++ [.preview "u"] := by
  have hfresh : Fresh stubbornSession := fresh_sample _ _ _ _
  refine ⟨⟨rfl, ?_⟩, rfl, ?_⟩
  · have hpause := (heard_after_cancel hfresh [.order .schedule] [] (.tick 0)).1 0 rfl
    exact (hpause Nat.zero_lt_one).1
  · have hheard := (heard_after_cancel hfresh [.order .schedule, .order .flush, .run 0]
      [.answer 1 (.url "u")] (.run 0)).2 1 rfl (Nat.le_refl 1)
    rcases hheard with hsilent | ⟨-, -, c, outcome, hc, -, -, hreply, -, hevents⟩
    · have hlength := congrArg List.length hsilent
      cases hlength
    · obtain rfl : c = ⟨.preview 1, true, some (.url "u")⟩ := List.mem_singleton.mp hc
      obtain rfl := Option.some.inj hreply
      exact hevents

end Session

end Retouch
