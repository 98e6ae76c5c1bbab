/-
  Entering the crop mode.

  With a crop, entering the mode asks for the whole image at once and waits until it is reported as
  displayed.  The request that is made then is the latest one as long as it has not ended, and until
  it does no URL is shown (`silent_until_end`).  So when it succeeds, its URL is compared with the
  one that was shown when the mode was entered: another one is shown and reported, and the wait is
  over; the same one is not shown again, so that nobody has to report it (`waits_until_shown`).
-/
import Mathlib
import Retouch.Proofs.Editor.Logic
import Retouch.Proofs.Preview.Voice
import Retouch.Proofs.Session.Latest
import Retouch.Proofs.Session.Waiting

namespace Retouch

namespace Preview

/-! ## What is shown -/

/-- Whether a move shows a URL. -/
def Shows (p : Preview) (m : Move) (u : String) : Prop := .notice (.shown u) ∈ (p.move m).2

/-- Whether moves show nothing. -/
def Silent (p : Preview) (ms : List Move) : Prop :=
  ∀ before m after, ms = before ++ m :: after → ∀ u, ¬ (p.moved before).Shows m u

/-- Whether every URL that moves show is reported as displayed afterwards. -/
def Acknowledged (p : Preview) (ms : List Move) : Prop :=
  ∀ before m after, ms = before ++ m :: after → ∀ u, (p.moved before).Shows m u →
    .order .notifyLoaded ∈ after

theorem Silent.snoc {p : Preview} {ms : List Move} {m : Move} (h : p.Silent ms)
    (hm : ∀ u, ¬ (p.moved ms).Shows m u) : p.Silent (ms ++ [m]) :=
  (forall_cut_snoc (P := fun before m => ∀ u, ¬ (p.moved before).Shows m u)).mpr ⟨h, hm⟩

/-- Where nothing is shown there is nothing to report. -/
theorem Silent.acknowledged {p : Preview} {ms : List Move} (h : p.Silent ms) :
    p.Acknowledged ms :=
  fun before m after hms u hshows => absurd hshows (h before m after hms u)

theorem told_of_shows {p : Preview} {m : Move} {u : String} (h : p.Shows m u) :
    .told m.ending? (.shown u) ∈ p.notes m :=
  List.mem_append_right _ (List.mem_filterMap.mpr ⟨_, h, rfl⟩)

/-- Only a reset forgets the URL that is shown. -/
theorem forgot_mem_notes {p : Preview} {m : Move} : .forgot ∈ p.notes m ↔ m = .order .reset := by
  constructor
  · intro h
    rcases List.mem_append.mp h with h | h
    · split at h
      · rfl
      · cases h
    · obtain ⟨e, -, he⟩ := List.mem_filterMap.mp h
      unfold Note.ofEffect? at he
      split at he <;> cases he
  · rintro rfl
    exact List.mem_append_left _ (List.mem_singleton_self _)

/-- A move before the end of the latest request shows nothing. -/
theorem still_under_way {p : Preview} {m : Move} (hnodup : p.running.Nodup)
    (hlatest : (p.move m).1.latest = p.latest) (hrunning : p.latest ∈ (p.move m).1.running) :
    p.latest ∈ p.running ∧ (∀ u, ¬ p.Shows m u) ∧
      ∀ u, (p.move m).1.lastUrl = some u ↔ p.lastUrl = some u ∧ m ≠ .order .reset := by
  have hturn := p.turn_move m
  have htold : ∀ u, p.Shows m u → .told m.ending? (.shown u) ∈ p.notes m := fun u => told_of_shows
  have hforgot := forgot_mem_notes (p := p) (m := m)
  generalize (p.move m).1 = q at hturn hlatest hrunning ⊢
  generalize p.notes m = ns at hturn htold hforgot
  cases hturn with
  | quiet _ hurl hless =>
      have hkept : m ≠ .order .reset := fun hm => List.not_mem_nil (hforgot.mpr hm)
      refine ⟨hless.subset hrunning, fun u hu => List.not_mem_nil (htold u hu), fun u => ?_⟩
      rw [hurl]
      exact (and_iff_left hkept).symm
  | starts hnewer => exact absurd (hlatest.symm.trans hnewer) (Nat.succ_ne_self _).symm
  | forgets =>
      have hreset : m = .order .reset := hforgot.mp (List.mem_singleton_self _)
      refine ⟨hrunning, fun u hu => ?_, fun u => iff_of_false (fun h => ?_) fun h => h.2 hreset⟩
      · cases List.mem_singleton.mp (htold u hu)
      · cases h
  -- Who shows a URL or fails ends, and a request that ended is not under way.
  | fails _ _ _ hends =>
      rw [hends] at hrunning
      exact absurd hrunning hnodup.not_mem_erase
  | shows _ _ _ _ _ hends =>
      rw [hends] at hrunning
      exact absurd hrunning hnodup.not_mem_erase

/-- As long as the latest request is under way nothing is shown, and what was shown before is at
most forgotten. -/
theorem silent_until_end {p : Preview} {start : List Move} (hp : p = ({} : Preview).moved start)
    {ms : List Move} (hlatest : (p.moved ms).latest = p.latest)
    (hrunning : p.latest ∈ (p.moved ms).running) :
    p.Silent ms ∧
      ∀ u, (p.moved ms).lastUrl = some u ↔ p.lastUrl = some u ∧ .order .reset ∉ ms := by
  -- The last move is taken off: the request was the latest and under way before it, too.
  induction ms using List.reverseRecOn with
  | nil => exact ⟨fun before m after h => by simp at h, fun u => by simp [moved]⟩
  | append_singleton ms m ih =>
      rw [moved_snoc] at hlatest hrunning ⊢
      have hbefore : (p.moved ms).latest = p.latest := by
        have hup := p.latest_le_moved ms
        have hon := ((p.moved ms).move_latest m).1
        omega
      have hnodup : (p.moved ms).running.Nodup := by
        rw [hp, ← moved_append]
        exact (Fenced.journal _).nodup
      obtain ⟨hrunning, hsilent, hurl⟩ := still_under_way hnodup (hlatest.trans hbefore.symm)
        (hbefore ▸ hrunning)
      obtain ⟨hpast, hlast⟩ := ih hbefore (hbefore ▸ hrunning)
      refine ⟨hpast.snoc hsilent, fun u => ?_⟩
      rw [hurl, hlast, and_assoc, List.mem_append, List.mem_singleton, not_or]
      exact and_congr_right fun _ => and_congr_right fun _ => not_congr eq_comm

/-- The latest request shows the URL that it brings, unless that one is shown already. -/
theorem settle_latest {p : Preview} {id : Nat} (hlatest : p.latest = id) (hrunning : id ∈ p.running)
    (u : String) : (p.settle id (.url u)).2 =
      if p.lastUrl = some u then [.notice (.loading false)] else [.notice (.shown u)] := by
  subst hlatest
  by_cases hlast : p.lastUrl = some u
  · simp [settle, hrunning, hlast, setLoading]
  · simp [settle, hrunning, hlast]

/-- A preview that is asked for at once starts the next request, whatever is shown. -/
theorem flush_schedule (p : Preview) :
    p.schedule.1.flush.1.running = p.running ++ [p.latest + 1] ∧
      p.schedule.1.flush.1.lastUrl = p.lastUrl ∧
      p.schedule.1.flush.2 = (.stopWindow :: p.withdrawCurrent) ++ [.start (p.latest + 1)] := by
  have hflush : p.schedule.1.flush =
      (p.schedule.1.pauseOver.1, .stopWindow :: p.schedule.1.pauseOver.2) :=
    if_pos p.scheduled_schedule
  rw [hflush]
  unfold schedule
  split
  · exact ⟨rfl, rfl, rfl⟩
  · exact ⟨rfl, rfl, rfl⟩

end Preview

/-- Entering the crop mode with a crop asks for a preview at once, and waits. -/
theorem Editor.run_setVisualCrop {e : Editor} {node : State} (hoff : e.visualCrop = false)
    (hnode : e.current = .ok node) (hcrop : node.params.hasCrop = true) :
    (setVisualCrop true).run e =
      ⟨.ok true, { e with visualCrop := true }, [.preview .schedule, .preview .flush]⟩ := by
  have hon : Edit.change (fun e => { e with visualCrop := true }) ⟨e, []⟩ =
      (.ok (), ⟨{ e with visualCrop := true }, []⟩) := rfl
  have hview : Edit.view current ⟨{ e with visualCrop := true }, []⟩ =
      (.ok node, ⟨{ e with visualCrop := true }, []⟩) := Prod.ext hnode rfl
  have hother : ¬ e.visualCrop = true := by simp [hoff]
  unfold setVisualCrop
  rw [Edit.run_view_bind_ok rfl, if_neg hother]
  unfold Edit.run
  rw [Edit.bind_of_ok hon, if_pos rfl, Edit.bind_of_ok hview, if_pos hcrop]
  rfl

namespace Session

variable {s : Session Editor}

/-! ## Entering the crop mode -/

/-- What is in line stays there when an errand begins to wait. -/
theorem ready_watch (s : Session Editor) (n : Nat) (announces : Bool) (timeout : Option Float) :
    ∃ js, (s.watch n announces timeout).ready = s.ready ++ js := by
  unfold watch
  split
  · exact ⟨[], (List.append_nil _).symm⟩
  · split
    · exact ⟨_, rfl⟩
    · exact ⟨[], (List.append_nil _).symm⟩

/-- The request that is started when a preview is asked for at once gets in line. -/
theorem request_mem_ready (s : Session Editor) (subject : Editor) :
    .request (s.preview.latest + 1) ∈
      (s.takeSubject subject [.preview .schedule, .preview .flush]).ready := by
  let t : Session Editor := { s with subject }
  have ht : (t.takePreview t.preview.schedule).preview = s.preview.schedule.1 :=
    (t.frames_takePreview (.order .schedule)).preview
  obtain ⟨-, -, heffects⟩ := s.preview.flush_schedule
  show _ ∈ ((t.takePreview t.preview.schedule).takePreview
    (t.takePreview t.preview.schedule).preview.flush).ready
  rw [ht]
  unfold takePreview
  rw [heffects, List.foldl_append]
  exact List.mem_append_right _ (List.mem_singleton_self _)

section

variable {place n : Nat} {editor : Editor} {timeout : Option Float} {node : State}
  (hjob : s.ready[place]? = some (.errand n (editor.cropErrand true timeout)))
  (hoff : s.subject.visualCrop = false) (hnode : s.subject.current = .ok node)
  (hcrop : node.params.hasCrop = true)

include hjob hoff hnode hcrop

theorem happen_enters :
    s.happen (.run place) =
      ({ s with ready := s.ready.eraseIdx place }.takeSubject { s.subject with visualCrop := true }
        [.preview .schedule, .preview .flush]).watch n true
          (some (timeout.getD editor.settings.previewLoadTimeoutS)) := by
  simp only [happen, hjob, runJob, Editor.cropErrand, begin,
    Editor.run_setVisualCrop hoff hnode hcrop]

/-- Besides the mode only the previews change, and the line. -/
theorem frames_enters :
    Frames { s with
        ready := s.ready.eraseIdx place, subject := { s.subject with visualCrop := true } }
      (s.happen (.run place)) [.order .schedule, .order .flush] := by
  rw [happen_enters hjob hoff hnode hcrop]
  exact (frames_takeSubject { s with ready := s.ready.eraseIdx place } _ _).trans
    (frames_watch _ n true _)

/-- The next request is in line, and the URL that is shown is the one before. -/
theorem preview_enters :
    let t := s.happen (.run place)
    let id := s.preview.latest + 1
    (t.preview.latest = id ∧ id ∈ t.preview.running ∧ .request id ∈ t.ready) ∧
      t.preview.lastUrl = s.preview.lastUrl := by
  intro t id
  have hpreview : t.preview = s.preview.schedule.1.flush.1 :=
    (frames_enters hjob hoff hnode hcrop).preview
  obtain ⟨hrunning, hurl, -⟩ := s.preview.flush_schedule
  refine ⟨⟨?_, ?_, ?_⟩, ?_⟩
  · rw [hpreview]
    exact s.preview.latest_flush_schedule
  · rw [hpreview, hrunning]
    exact List.mem_append_right _ (List.mem_singleton_self _)
  · obtain ⟨js, hready⟩ := ready_watch ({ s with ready := s.ready.eraseIdx place }.takeSubject
      { s.subject with visualCrop := true } [.preview .schedule, .preview .flush]) n true
      (some (timeout.getD editor.settings.previewLoadTimeoutS))
    show _ ∈ (s.happen (.run place)).ready
    rw [happen_enters hjob hoff hnode hcrop, hready]
    exact List.mem_append_left _ (request_mem_ready { s with ready := s.ready.eraseIdx place } _)
  · rw [hpreview, hurl]

/-- Taken out of line, an errand has a number that nobody else has; so it waits if it is given any
time. -/
theorem waiting_enters (hs : Numbered s) :
    let t := s.happen (.run place)
    n ∉ t.unbegun ∧ n ≤ t.errands ∧
      (n ∈ t.waiting ↔ ¬ timeout.getD editor.settings.previewLoadTimeoutS ≤ 0.0) := by
  rw [happen_enters hjob hoff hnode hcrop]
  generalize timeout.getD editor.settings.previewLoadTimeoutS = patience
  obtain ⟨u, hu⟩ : ∃ u : Session Editor, u = { s with ready := s.ready.eraseIdx place } := ⟨_, rfl⟩
  have hwaiting : u.waiting = s.waiting := by
    rw [hu]
    rfl
  have hperm : (n :: u.unbegun).Perm s.unbegun := hu ▸ s.perm_unbegun hjob
  have hnodup : (n :: (u.unbegun ++ s.waiting)).Nodup :=
    (hperm.append_right s.waiting).nodup_iff.mpr hs.nodup
  obtain ⟨hnew, -⟩ := List.nodup_cons.mp hnodup
  rw [List.mem_append, not_or] at hnew
  have hsent : n ≤ u.errands := by
    rw [hu]
    exact hs.le n (List.mem_append_left _ (hperm.mem_iff.mp List.mem_cons_self))
  rw [← hu]
  have hasked : Wakes u (u.takeSubject { s.subject with visualCrop := true }
      [.preview .schedule, .preview .flush]) false := u.wakes_takeSubject _ _
  have hruns := hasked.watch n true (some patience)
  intro t
  refine ⟨?_, ?_, ?_⟩
  · rw [hruns.unbegun]
    exact hnew.1
  · rw [hruns.errands]
    exact hsent
  · show n ∈ (Session.watch _ n true (some patience)).waiting ↔ _
    rw [waiting_watch, hasked.waiting, hwaiting, List.mem_append]
    simp [hnew.2]

end

/-- **Entering the crop mode waits for a report that may not come.**  Take any session in which an
errand is next to enter the crop mode while it is off and what is edited has a crop.  The errand
starts a request, and if it is given any time it waits, whatever happens then, exactly as long as
the display is not reported, the previews are not given up, and its time is not over.  When the
request succeeds while it is the latest, no URL was shown since.  If it brings the URL that was
shown when the mode was entered, and that was not forgotten since, it does not show it either, so
that up to its end there is nothing to report.  If it brings another one, this is shown, and once
all that is shown is reported the errand does not wait. -/
theorem waits_until_shown (e : Editor) (generator : Generator) (byHand : Bool)
    (run : List Happening) {s : Session Editor}
    (hs : s = (e.session generator byHand).happenings run) {place n : Nat} {editor : Editor}
    {timeout : Option Float} {node : State}
    (hjob : s.ready[place]? = some (.errand n (editor.cropErrand true timeout)))
    (hoff : s.subject.visualCrop = false) (hnode : s.subject.current = .ok node)
    (hcrop : node.params.hasCrop = true) :
    let t := s.happen (.run place)
    let id := s.preview.latest + 1
    (t.preview.latest = id ∧ id ∈ t.preview.running ∧ .request id ∈ t.ready) ∧
    ∀ rest : List Happening,
      (n ∈ (t.happenings rest).waiting ↔
        ¬ timeout.getD editor.settings.previewLoadTimeoutS ≤ 0.0 ∧
          (∀ m ∈ t.movesOf rest, m.tells = false) ∧ n ∉ t.quitters rest) ∧
      ∀ before u after, t.movesOf rest = before ++ .settle id (.url u) :: after →
        let p := t.preview.moved before
        p.latest = id → id ∈ p.running →
        t.preview.Silent before ∧
        (s.preview.lastUrl = some u ∧ .order .reset ∉ before →
          (p.settle id (.url u)).2 = [.notice (.loading false)] ∧
            t.preview.Silent (before ++ [.settle id (.url u)])) ∧
        (¬ (s.preview.lastUrl = some u ∧ .order .reset ∉ before) →
          p.Shows (.settle id (.url u)) u ∧
            (t.preview.Acknowledged (t.movesOf rest) → n ∉ (t.happenings rest).waiting)) := by
  intro t id
  obtain ⟨hrequest, hurl⟩ := preview_enters hjob hoff hnode hcrop
  have hnumbered : Numbered s := hs ▸ (numbered_session e generator byHand).happenings run
  obtain ⟨hbegun, hsent, hwaits⟩ := waiting_enters hjob hoff hnode hcrop hnumbered
  refine ⟨hrequest, fun rest => ?_⟩
  have hrest := waits_happenings hbegun hsent rest
  rw [hwaits] at hrest
  refine ⟨hrest, ?_⟩
  intro before u after hmoves p hlatest hrunning
  have hreached : t.preview = ({} : Preview).moved
      ((e.session generator byHand).movesOf (run ++ [.run place])) := by
    have hthen : t = (e.session generator byHand).happenings (run ++ [.run place]) := by
      rw [happenings_append, ← hs]
      rfl
    rw [hthen]
    exact preview_happenings _ _
  have hsame : (t.preview.moved before).latest = t.preview.latest := hlatest.trans hrequest.1.symm
  obtain ⟨hsilent, hlast⟩ := Preview.silent_until_end hreached hsame (hrequest.1 ▸ hrunning)
  have heffects := Preview.settle_latest hlatest hrunning u
  have hshown : p.lastUrl = some u ↔ s.preview.lastUrl = some u ∧ .order .reset ∉ before := by
    rw [hlast u, hurl]
  refine ⟨hsilent, fun hold => ?_, fun hother => ?_⟩
  · rw [if_pos (hshown.mpr hold)] at heffects
    refine ⟨heffects, hsilent.snoc fun v hv => ?_⟩
    have hv : .notice (.shown v) ∈ (p.settle id (.url u)).2 := hv
    rw [heffects] at hv
    cases List.mem_singleton.mp hv
  · have hshows : p.Shows (.settle id (.url u)) u := by
      show _ ∈ (p.settle id (.url u)).2
      rw [heffects, if_neg (mt hshown.mp hother)]
      exact List.mem_singleton_self _
    refine ⟨hshows, fun hreported hwaiting => ?_⟩
    -- The report of the URL comes later in the run, and tells all who wait.
    have hreport : .order .notifyLoaded ∈ after := hreported before _ after hmoves u hshows
    have hmade : .order .notifyLoaded ∈ t.movesOf rest := by
      rw [hmoves]
      exact List.mem_append_right _ (List.mem_cons_of_mem _ hreport)
    exact Bool.noConfusion ((hrest.mp hwaiting).2.1 _ hmade)

/-- The URL of the whole image. -/
def wholeUrl : String := echoBase ++ "filters:format(webp)/base.png"

/-- The session in which it was shown and reported, apart from what was heard until then. -/
def whole (events : List Event) : Session Editor :=
  { paused with
    ready := []
    preview := { latest := 1, current := some 1, lastUrl := some wholeUrl }
    events }

theorem happen_paused :
    ∃ events, (paused.happen (.run 0)).happen (.command .notifyLoaded) = whole events := by
  have hrun : paused.happen (.run 0) = { paused with ready := [] }.runJob (.request 1) := rfl
  rw [hrun.trans (runJob_request_ok { paused with ready := [] } previewAsk_paused 1)]
  exact ⟨_, rfl⟩

/-- Gives the image a crop. -/
def giveCrop : Command :=
  .update ⟨.object [("cropLeft", .int 0), ("cropTop", .int 0), ("cropWidth", .int 1),
    ("cropHeight", .int 1)], false⟩ false false

/-- The image without the crop. -/
def uncropped : State :=
  ⟨{ imagePath := some "base.png", originalDimensions := some ⟨0, 0⟩ }, none⟩

/-- The image with the crop. -/
def cropped : State :=
  ⟨{ uncropped.params with
      cropLeft := some 0, cropTop := some 0, cropWidth := some 1, cropHeight := some 1 }, none⟩

/-- An editor on the image, with observers and some settings. -/
def heard (s : Settings) (root : State) : Editor :=
  { Editor.start s "base.png" ⟨0, 0⟩ none with listening := true, root }

set_option maxRecDepth 4000 in
theorem run_giveCrop (s : Settings) :
    (Editor.carryOut giveCrop).run (heard s uncropped) =
      ⟨.ok .done, heard s cropped, [.announce cropped, .preview .schedule]⟩ := by
  cbv

/-- The image with the crop is to be shown after a pause, but the crop mode is entered at once. -/
def entering : Session Editor :=
  (((paused.happen (.run 0)).happen (.command .notifyLoaded)).happen (.command giveCrop)).happen
    (.send (unsized.cropErrand true none))

theorem entering_eq : ∃ events, entering =
    (((whole events).takeSubject (heard {} cropped) [.announce cropped, .preview .schedule]).send
      (unsized.cropErrand true none)).2 := by
  obtain ⟨events, hwhole⟩ := happen_paused
  refine ⟨events, ?_⟩
  have hgive : (Editor.carryOut giveCrop).run (whole events).subject = _ := run_giveCrop {}
  unfold entering
  rw [hwhole]
  simp only [happen, carryOut, hgive]

/-- In the mode the crop is left out, so what the preview shows is what it shows already. -/
theorem previewAsk_cropped : Editor.previewAsk { heard {} cropped with visualCrop := true } =
    .ok ⟨"base.png", "filters:format(webp)/base.png"⟩ := by
  have hpath : Editor.currentPath { heard {} cropped with visualCrop := true } true =
      unsized.currentPath true := by
    show cropped.withoutCrop.path "base.png" (some ⟨0, 0⟩)
      ({ forPreview := true, scale := (1 : Float) } : EncodeOptions Float) false none =
        unsized.root.path "base.png" (some ⟨0, 0⟩)
      ({ forPreview := true, scale := (1 : Float) } : EncodeOptions Float) false none
    rfl
  unfold Editor.previewAsk
  rw [hpath, currentPath_unsized]
  rfl

/-- The whole image was shown and reported, a crop is given, and the mode entered before the pause
is over: the request succeeds and all that is shown is reported, but given any time the errand still
waits. -/
theorem waits_until_shown_whole :
    let t := entering.happen (.run 0)
    entering.preview.lastUrl = some wholeUrl ∧
      t.movesOf [.run 0] = [.settle 2 (.url wholeUrl)] ∧
      (t.preview.settle 2 (.url wholeUrl)).2 = [.notice (.loading false)] ∧
      t.preview.Acknowledged (t.movesOf [.run 0]) ∧
      (1 ∈ (t.happenings [.run 0]).waiting ↔ ¬ unsized.settings.previewLoadTimeoutS ≤ 0.0) := by
  obtain ⟨events, hentering⟩ := entering_eq
  have hjob : entering.ready[0]? = some (.errand 1 (unsized.cropErrand true none)) := by
    rw [hentering]
    rfl
  have hsubject : entering.subject = heard {} cropped := by
    rw [hentering]
    rfl
  have hurl : entering.preview.lastUrl = some wholeUrl := by
    rw [hentering]
    rfl
  have hoff : entering.subject.visualCrop = false := by
    rw [hsubject]
    rfl
  have hnode : entering.subject.current = .ok cropped := by
    rw [hsubject]
    rfl
  have hone : entering.preview.latest = 1 := by
    rw [hentering]
    rfl
  have hframes := frames_enters hjob hoff hnode rfl
  have hask : (entering.happen (.run 0)).subject.previewAsk =
      .ok ⟨"base.png", "filters:format(webp)/base.png"⟩ := by
    rw [hframes.subject, hsubject]
    exact previewAsk_cropped
  have hecho : (entering.happen (.run 0)).generator = .echo := by
    rw [hframes.generator, hentering]
    rfl
  have hnext : (entering.happen (.run 0)).ready[0]? = some (.request 2) := by
    obtain ⟨js, hready⟩ := ready_watch ({ entering with
      ready := entering.ready.eraseIdx 0 }.takeSubject { entering.subject with visualCrop := true }
        [.preview .schedule, .preview .flush]) 1 true (some unsized.settings.previewLoadTimeoutS)
    rw [happen_enters hjob hoff hnode rfl]
    refine (congrArg (·[0]?) hready).trans ?_
    rw [hentering]
    rfl
  have hmoves : (entering.happen (.run 0)).movesOf [.run 0] = [.settle 2 (.url wholeUrl)] := by
    show (entering.happen (.run 0)).moves (.run 0) ++ [] = _
    rw [moves, hnext, Option.elim_some, ran, hask, List.append_nil]
    show (entering.happen (.run 0)).called (.preview 2) _ = _
    unfold called
    rw [hecho]
    rfl
  have hreached : entering = (unsized.session .echo true).happenings
      [.command (.startOver true), .ring .previewPause, .run 0, .command .notifyLoaded,
        .command giveCrop, .send (unsized.cropErrand true none)] := rfl
  obtain ⟨⟨hlatest, hrunning, -⟩, hrest⟩ :=
    waits_until_shown unsized .echo true _ hreached hjob hoff hnode rfl
  obtain ⟨hwaits, hend⟩ := hrest [.run 0]
  rw [hmoves] at hwaits hend
  rw [show entering.preview.latest + 1 = 2 from congrArg (· + 1) hone] at hend hlatest hrunning
  obtain ⟨-, hsame, -⟩ := hend [] wholeUrl [] rfl hlatest hrunning
  have hquits : (entering.happen (.run 0)).quitters [.run 0] = [] := by
    show ((entering.happen (.run 0)).quitter? (.run 0)).toList ++ [] = []
    rw [quitter?, hnext]
    rfl
  obtain ⟨heffects, hsilent⟩ := hsame ⟨hurl, List.not_mem_nil⟩
  refine ⟨hurl, hmoves, heffects, hmoves ▸ hsilent.acknowledged, hwaits.trans ?_⟩
  · rw [hquits]
    refine ⟨And.left, fun h => ⟨h, fun m hm => ?_, List.not_mem_nil⟩⟩
    rw [List.mem_singleton.mp hm]
    rfl

end Session

end Retouch
