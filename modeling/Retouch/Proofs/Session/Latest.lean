/-
  No preview is lost.

  A change of what the preview shows is always followed by an order for a preview, so as long as
  none waits for its pause, the latest request was made for what is shown now: it reads the path
  when it begins to run, and nothing has changed since (`Current`).  Older requests may still end in
  any way and at any time; they are not heard.  Therefore, when no preview waits for a pause and the
  latest request has brought a URL, this is the URL of what is edited now, and the one shown.
-/
import Retouch.Proofs.Result
import Retouch.Proofs.Session.Run

namespace Retouch

/-! ## What moves of the previews show -/

namespace Preview

/-- The latest request, if it is under way, shows the URL that it brings. -/
theorem lastUrl_settle {p : Preview} {id : Nat} (hlatest : id = p.latest)
    (hrunning : id ∈ p.running) (u : String) : (p.settle id (.url u)).1.lastUrl = some u := by
  subst hlatest
  by_cases hlast : p.lastUrl = some u
  · simp [settle, hrunning, hlast, setLoading]
  · simp [settle, hrunning, hlast]

/-- Other requests show nothing. -/
theorem lastUrl_settle_of_not {p : Preview} {id : Nat} (h : ¬ (id = p.latest ∧ id ∈ p.running))
    (outcome : Outcome) : (p.settle id outcome).1.lastUrl = p.lastUrl := by
  unfold settle
  split
  · rename_i hrunning
    have hlatest : id ≠ p.latest := fun hid => h ⟨hid, hrunning⟩
    cases outcome with
    | withdrawn => rfl
    | failed cause => simp [hlatest]
    | url u => simp [hlatest]
  · rfl

theorem scheduled_schedule (p : Preview) : p.schedule.1.scheduled = true := by
  unfold schedule
  split
  · assumption
  · rfl

theorem latest_schedule (p : Preview) : p.schedule.1.latest = p.latest := by
  unfold schedule
  split
  · rfl
  · rfl

/-- A preview that is waited for is requested when it is asked for at once. -/
theorem latest_flush_schedule (p : Preview) : p.schedule.1.flush.1.latest = p.latest + 1 := by
  rw [flush, if_pos p.scheduled_schedule, ← p.latest_schedule]
  rfl

end Preview

namespace Session.Watch

/-- What was shown last is what the previews take to be shown. -/
theorem shown_see {w : Watch} {p : Preview} (h : w.shown = p.lastUrl) (m : Preview.Move) :
    (w.see p m).shown = (p.move m).1.lastUrl := by
  -- The end of a pause withdraws one request and starts another one, and shows nothing.
  have hpause : (p.pauseOver).2.foldl shownAfter w.shown = p.lastUrl := by
    unfold Preview.pauseOver Preview.withdrawCurrent
    split
    · split <;> simp [shownAfter, h]
    · simp [shownAfter, h]
  cases m with
  | pauseOver => exact hpause
  | settle id outcome =>
      show (p.settle id outcome).2.foldl shownAfter w.shown = (p.settle id outcome).1.lastUrl
      unfold Preview.settle
      split
      · cases outcome with
        | withdrawn => simp [h]
        | failed cause =>
            by_cases hid : id = p.latest
            · simp [hid, Preview.setLoading, shownAfter, h]
            · simp [hid, h]
        | url u =>
            by_cases hid : id = p.latest
            · by_cases hlast : p.lastUrl = some u
              · simp [hid, hlast, Preview.setLoading, shownAfter, h]
              · simp [hid, hlast, shownAfter]
            · simp [hid, h]
      · simp [h]
  | order o =>
      cases o with
      | schedule =>
          show p.schedule.2.foldl shownAfter w.shown = p.schedule.1.lastUrl
          unfold Preview.schedule
          split <;> simp [Preview.setLoading, shownAfter, h]
      | flush =>
          show p.flush.2.foldl shownAfter w.shown = p.flush.1.lastUrl
          unfold Preview.flush
          split
          · exact hpause
          · exact h
      | reset => rfl
      | cancel =>
          show p.cancel.2.foldl shownAfter w.shown = p.cancel.1.lastUrl
          unfold Preview.cancel Preview.withdrawCurrent
          split
          · split <;> simp [shownAfter, h]
          · simp [shownAfter, h]
      | notifyLoaded => exact h

theorem shown_follow {w : Watch} {p : Preview} (h : w.shown = p.lastUrl)
    (ms : List Preview.Move) : (w.follow p ms).shown = (p.moved ms).lastUrl := by
  induction ms generalizing w p with
  | nil => exact h
  | cons m ms ih => exact ih (shown_see h m)

theorem asked_note_nil (w : Watch) (p : Preview) (ms : List Preview.Move) :
    (w.note p ms []).asked = w.asked := List.append_nil _

theorem note_nil_nil (w : Watch) (p : Preview) : w.note p [] [] = w := by
  unfold note
  rw [List.append_nil]
  rfl

end Session.Watch

namespace Session

/-- What stands at one place of two lists of one length, to each of which something was added. -/
theorem getElem?_concat_both {α β : Type} {xs : List α} {ys : List β} {x x' : α} {y y' : β}
    {i : Nat} (h : xs.length = ys.length) (hx : (xs ++ [x])[i]? = some x')
    (hy : (ys ++ [y])[i]? = some y') :
    (xs[i]? = some x' ∧ ys[i]? = some y') ∨ (x' = x ∧ y' = y) := by
  rcases Nat.lt_trichotomy i xs.length with hi | rfl | hi
  · rw [List.getElem?_append_left hi] at hx
    rw [List.getElem?_append_left (h ▸ hi)] at hy
    exact .inl ⟨hx, hy⟩
  · rw [List.getElem?_concat_length] at hx
    rw [h, List.getElem?_concat_length] at hy
    exact .inr ⟨(Option.some.inj hx).symm, (Option.some.inj hy).symm⟩
  · have hlong : (xs ++ [x]).length ≤ i := by
      rw [List.length_append]
      exact hi
    rw [List.getElem?_eq_none hlong] at hx
    cases hx

/-! ## What a regular run keeps -/

/-- Whether a job is one that a regular run puts in line. -/
def Job.Regular (latest : Nat) : Job Editor → Prop
  | .request id => id ≤ latest
  | .errand _ e => e.Regular
  | _ => True

theorem Job.Tame.regular {j : Job Editor} {n : Nat} (h : j.Tame n) : j.Regular n := by
  cases j with
  | request id => exact h
  | errand n e => exact h.elim
  | _ => exact trivial

theorem Job.Regular.mono {j : Job Editor} {m n : Nat} (h : j.Regular m) (hle : m ≤ n) :
    j.Regular n := by
  cases j with
  | request id => exact Nat.le_trans h hle
  | _ => exact h

/-- Whether a watch fits a session: calls and what they ask for go together, and whatever came from
the generator is the URL of what was asked for. -/
structure Fits (url : String → String) (s : Session Editor) (w : Watch) : Prop where
  generator : s.generator.Follows url
  shown : w.shown = s.preview.lastUrl
  count : s.calls.length = w.asked.length
  reply : ∀ (i : Nat) (c : Call) (a : Ask) (u : String), s.calls[i]? = some c →
    w.asked[i]? = some a → c.reply = some (.url u) → u = url a.path
  asker : ∀ (i : Nat) (c : Call) (a : Ask) (id : Nat), s.calls[i]? = some c →
    w.asked[i]? = some a → c.asker = .preview id → id ≤ s.preview.latest
  ready : ∀ j ∈ s.ready, j.Regular s.preview.latest

/-- Whether all that came or may still come of the latest request is for what is edited now. -/
structure Current (url : String → String) (s : Session Editor) (w : Watch) : Prop where
  calls : ∀ (i : Nat) (c : Call) (a : Ask), s.calls[i]? = some c → w.asked[i]? = some a →
    c.asker = .preview s.preview.latest → s.subject.previewAsk = .ok a
  ended : ∀ u, w.ended = some (.url u) →
    ∃ a, s.subject.previewAsk = .ok a ∧ u = url a.path ∧ s.preview.lastUrl = some u

/-- Whether a watch fits a session, and all is current unless a preview waits for its pause. -/
structure UpToDate (url : String → String) (s : Session Editor) (w : Watch) : Prop where
  fits : Fits url s w
  current : s.preview.scheduled = false → Current url s w

variable {url : String → String} {s t : Session Editor} {w : Watch} {ms : List Preview.Move}

theorem Fits.frames (h : Fits url s w) (hf : Frames s t ms) :
    Fits url t (w.note s.preview ms []) where
  generator := hf.generator ▸ h.generator
  shown := by
    rw [hf.preview]
    exact Watch.shown_follow h.shown ms
  count := by
    rw [hf.count, h.count, Watch.asked_note_nil]
  reply i c a u hc ha hu := by
    rw [Watch.asked_note_nil] at ha
    obtain ⟨b, hb, -, hreply | hreply⟩ := hf.calls i c hc
    · exact h.reply i b a u hb ha (hreply ▸ hu)
    · rw [hreply] at hu
      cases hu
  asker i c a id hc ha hid := by
    rw [Watch.asked_note_nil] at ha
    obtain ⟨b, hb, hasker, -⟩ := hf.calls i c hc
    exact Nat.le_trans (h.asker i b a id hb ha (hasker ▸ hid)) hf.latest
  ready j hj := by
    rcases hf.ready j hj with hj | hj
    · exact (h.ready j hj).mono hf.latest
    · exact hj.regular

/-- What was current stays so as long as the latest request is the same, and what came of it. -/
theorem Current.frames (h : Current url s w) (hf : Frames s t ms)
    (hlatest : t.preview.latest = s.preview.latest)
    (hended : ∀ u, (w.note s.preview ms []).ended = some (.url u) →
      ∃ a, s.subject.previewAsk = .ok a ∧ u = url a.path ∧ t.preview.lastUrl = some u) :
    Current url t (w.note s.preview ms []) where
  calls i c a hc ha hasker := by
    rw [Watch.asked_note_nil] at ha
    obtain ⟨b, hb, hsame, -⟩ := hf.calls i c hc
    rw [hf.subject]
    refine h.calls i b a hb ha ?_
    rw [← hsame, hasker, hlatest]
  ended u hu := by
    rw [hf.subject]
    exact hended u hu

/-- Nothing has come of a new request yet. -/
theorem Fits.current_of_newer (h : Fits url s w) (hf : Frames s t ms)
    (hnewer : s.preview.latest < t.preview.latest)
    (hended : (w.note s.preview ms []).ended = none) : Current url t (w.note s.preview ms []) where
  calls i c a hc ha hasker := by
    rw [Watch.asked_note_nil] at ha
    obtain ⟨b, hb, hsame, -⟩ := hf.calls i c hc
    exact absurd (h.asker i b a _ hb ha (hsame ▸ hasker)) (Nat.not_le.mpr hnewer)
  ended u hu := by
    rw [hended] at hu
    cases hu

/-! ## Moves -/

/-- Once a preview waits for its pause, nothing has to be current. -/
theorem Fits.scheduled (h : Fits url s w) (hf : Frames s t (ms ++ [.order .schedule])) :
    UpToDate url t (w.note s.preview (ms ++ [.order .schedule]) []) := by
  refine ⟨h.frames hf, fun hscheduled => ?_⟩
  have hwaits : t.preview.scheduled = true := by
    rw [hf.preview, Preview.moved_append]
    exact (s.preview.moved ms).scheduled_schedule
  rw [hwaits] at hscheduled
  cases hscheduled

/-- A preview that is asked for at once is requested for what is edited now. -/
theorem Fits.flushed (h : Fits url s w) (hf : Frames s t [.order .schedule, .order .flush]) :
    UpToDate url t (w.note s.preview [.order .schedule, .order .flush] []) := by
  have hlatest := s.preview.latest_flush_schedule
  refine ⟨h.frames hf, fun _ => h.current_of_newer hf ?_ (if_neg ?_)⟩
  · rw [hf.preview]
    exact Nat.lt_of_lt_of_eq (Nat.lt_succ_self _) hlatest.symm
  · have hsame := s.preview.latest_schedule
    exact fun h => by
      have h : s.preview.schedule.1.flush.1.latest = s.preview.schedule.1.latest := h
      omega

theorem opens_of_error {j : Job Editor} {x : Failure} (hj : s.asks j = .error x) :
    s.opens j = [] := by
  unfold opens
  rw [hj]
  split <;> rfl

theorem opens_of_ok {j : Job Editor} {a : Ask} (hj : s.asks j = .ok a) :
    s.opens j = if s.generator.waits then [a] else [] := by
  unfold opens
  rw [hj]
  rfl

/-- An errand that fetches a URL makes no move. -/
theorem called_errand (s : Session Editor) (n : Nat) (guarded : Bool) (a : Ask) :
    s.called (.errand n guarded) a = [] := by
  unfold called
  split <;> rfl

namespace UpToDate

/-- Steps that make no move change nothing. -/
theorem quiet (h : UpToDate url s w) (hf : Frames s t []) : UpToDate url t w := by
  have hpreview : t.preview = s.preview := hf.preview
  have hfits := h.fits.frames hf
  rw [Watch.note_nil_nil] at hfits
  refine ⟨hfits, fun hscheduled => ?_⟩
  have hcurrent := h.current (hpreview ▸ hscheduled)
  have hsame := hcurrent.frames hf (by rw [hpreview]) fun u hu => by
    rw [hpreview]
    exact hcurrent.ended u (by rwa [Watch.note_nil_nil] at hu)
  rwa [Watch.note_nil_nil] at hsame

theorem still (h : UpToDate url s w) (hf : Frames s t []) :
    UpToDate url t (w.note s.preview [] []) := by
  rw [Watch.note_nil_nil]
  exact h.quiet hf

/-- Noting that a preview is displayed changes only the mark for it. -/
theorem loaded (h : UpToDate url s w) (hf : Frames s t [.order .notifyLoaded]) :
    UpToDate url t (w.note s.preview [.order .notifyLoaded] []) := by
  have hpreview : t.preview = { s.preview with loading := false } := hf.preview
  refine ⟨h.fits.frames hf, fun hscheduled => ?_⟩
  have hcurrent := h.current (by rwa [hpreview] at hscheduled)
  refine hcurrent.frames hf (by rw [hpreview]) fun u hu => ?_
  rw [hpreview]
  exact hcurrent.ended u ((if_pos rfl).symm.trans hu)

/-- The end of a pause starts a request for what is edited then. -/
theorem pauseOver (h : UpToDate url s w) :
    UpToDate url (s.takePreview s.preview.pauseOver) (w.note s.preview [.pauseOver] []) := by
  have hf := s.frames_takePreview .pauseOver
  refine ⟨h.fits.frames hf, fun _ => h.fits.current_of_newer hf ?_ (if_neg (Nat.succ_ne_self _))⟩
  exact Nat.lt_of_lt_of_eq (Nat.lt_succ_self _) (congrArg (·.latest) hf.preview).symm

/-- An operation that succeeds leaves all current, or has a preview asked for. -/
theorem takeSubject {α : Type} {o : Editor.Outcome α} (h : UpToDate url s w)
    (ho : o.Told s.subject) :
    UpToDate url (s.takeSubject o.editor o.effects)
      (w.note s.preview (ordered o.effects) []) := by
  have hf := s.frames_takeSubject o.editor o.effects
  have hfits : Fits url { s with subject := o.editor } w := { h.fits with }
  unfold ordered at hf ⊢
  rcases ho with ⟨hask, horders⟩ | ⟨os, horders⟩ | horders
  · have hsame : UpToDate url { s with subject := o.editor } w := by
      -- What is asked for is the same, so what was current for the old editor is for the new one.
      refine ⟨hfits, fun hscheduled => ?_⟩
      obtain ⟨hcalls, hended⟩ := h.current hscheduled
      rw [← hask] at hcalls hended
      exact ⟨hcalls, hended⟩
    rcases horders with horders | horders
    · rw [horders] at hf ⊢
      rw [List.map_nil, Watch.note_nil_nil]
      exact hsame.quiet hf
    · rw [horders] at hf ⊢
      exact hsame.loaded hf
  · rw [horders, List.map_append] at hf ⊢
    exact hfits.scheduled hf
  · rw [horders] at hf ⊢
    exact hfits.flushed hf

/-- A request that ends with a URL has to bring the one of what is edited now, if it is the latest
and none waits for its pause. -/
theorem conclude {asker : Asker} {outcome : Preview.Outcome} (h : UpToDate url s w)
    (hurl : ∀ u, outcome = .url u → asker = .preview s.preview.latest →
      s.preview.scheduled = false → ∃ a, s.subject.previewAsk = .ok a ∧ u = url a.path) :
    UpToDate url (s.conclude asker outcome) (w.note s.preview (concluded outcome asker) []) := by
  have hf := s.frames_conclude asker outcome
  cases asker with
  | errand n guarded => exact h.still hf
  | preview id =>
      -- The end of a request starts none, so if one waits now one waited before.
      obtain ⟨hlatest, hwaits, -⟩ := s.preview.settle_keeps id outcome
      have hpreview : (s.conclude (.preview id) outcome).preview =
          (s.preview.settle id outcome).1 := hf.preview
      refine ⟨h.fits.frames hf, fun hscheduled => ?_⟩
      rw [hpreview, hwaits] at hscheduled
      have hcurrent := h.current hscheduled
      refine hcurrent.frames hf (by rw [hpreview, hlatest]) fun u hu => ?_
      rw [hpreview]
      -- Either this is how the latest request ended, and it brought the URL of what is edited now,
      -- or another one ended, and what came of the latest stays.
      have hu : (if id = s.preview.latest ∧ id ∈ s.preview.running then some outcome
          else w.ended) = some (.url u) := hu
      split at hu
      · rename_i hid
        cases hu
        obtain ⟨a, hask, hua⟩ := hurl u rfl (by rw [hid.1]) hscheduled
        exact ⟨a, hask, hua, Preview.lastUrl_settle hid.1 hid.2 u⟩
      · rename_i hid
        rw [Preview.lastUrl_settle_of_not hid]
        exact hcurrent.ended u hu

/-- Calling the generator for a request asks for what is edited now. -/
theorem call (h : UpToDate url s w) {asker : Asker} {ask : Ask}
    (hask : ∀ id, asker = .preview id →
      id ≤ s.preview.latest ∧ s.subject.previewAsk = .ok ask) :
    UpToDate url (s.call asker ask)
      (w.note s.preview (s.called asker ask) (if s.generator.waits then [ask] else [])) := by
  have hlog : UpToDate url (s.log (.generate ask)) w := h.quiet (frames_log s _)
  have hnow : ∀ u, u = url ask.path → asker = .preview s.preview.latest →
      ∃ a, s.subject.previewAsk = .ok a ∧ u = url a.path := fun u hu hasker =>
    ⟨ask, (hask _ hasker).2, hu⟩
  have hfollows := h.fits.generator
  unfold Session.call called
  cases hgenerator : s.generator with
  | addresses a =>
      rw [hgenerator] at hfollows
      refine h.conclude fun u hu hasker _ => hnow u ?_ hasker
      cases hu
      exact hfollows ask.path
  | echo =>
      rw [hgenerator] at hfollows
      refine hlog.conclude fun u hu hasker _ => hnow u ?_ hasker
      cases hu
      exact hfollows ask.path
  | failing text =>
      refine hlog.conclude fun u hu => ?_
      cases hu
  | byHand stubborn =>
      -- The new call and what it asks for come last in two lists of one length: what is said of
      -- all calls held of the earlier ones, and is read off for this one.
      obtain ⟨⟨hgen, hshown, hcount, hreply, hasker, hready⟩, hcurrent⟩ := hlog
      refine ⟨⟨hgen, hshown, ?_, ?_, ?_, hready⟩, fun hscheduled => ⟨?_, ?_⟩⟩
      · show (s.calls ++ [_]).length = (w.asked ++ [ask]).length
        rw [List.length_append, List.length_append, h.fits.count]
        rfl
      · intro i c a u hc ha hu
        rcases getElem?_concat_both hcount hc ha with ⟨hc, ha⟩ | ⟨rfl, rfl⟩
        · exact hreply i c a u hc ha hu
        · cases hu
      · intro i c a id hc ha hid
        rcases getElem?_concat_both hcount hc ha with ⟨hc, ha⟩ | ⟨rfl, rfl⟩
        · exact hasker i c a id hc ha hid
        · exact (hask id hid).1
      · intro i c a hc ha hlatest
        rcases getElem?_concat_both hcount hc ha with ⟨hc, ha⟩ | ⟨rfl, rfl⟩
        · exact (hcurrent hscheduled).calls i c a hc ha hlatest
        · exact (hask _ hlatest).2
      · exact (hcurrent hscheduled).ended

/-- What happens at a time leaves all current. -/
theorem ring (h : UpToDate url s w) (a : Alarm) :
    UpToDate url (s.ring a) (w.note s.preview (s.rung a) []) := by
  cases a with
  | previewPause =>
      have hended : UpToDate url { s with previewWindow := s.previewWindow.ended } w :=
        h.quiet (.of_eq rfl rfl rfl rfl rfl)
      exact hended.pauseOver
  | historyPause =>
      have hended : UpToDate url { s with historyWindow := s.historyWindow.ended } w :=
        h.quiet (.of_eq rfl rfl rfl rfl rfl)
      exact hended.takeSubject (o := ⟨.ok (), _, _⟩) (.inl ⟨rfl, .inl (Editor.orders_history _)⟩)
  | late n =>
      refine h.still ?_
      simp only [Session.ring]
      split
      · exact Frames.refl s
      · rename_i late _
        have hothers : Frames s { s with watchers := s.watchers.filter (·.errand ≠ n) } [] :=
          .of_eq rfl rfl rfl rfl rfl
        exact hothers.trans (frames_enqueue _ trivial)

/-- An errand that a regular run sends leaves all current. -/
theorem begin {n : Nat} {e : Errand Editor} (h : UpToDate url s w) (he : e.Regular)
    (hact : ∀ act timeout, e = .change act timeout → ∃ b, (act s.subject).1 = .ok b) :
    UpToDate url (s.begin n e)
      (w.note s.preview (s.ran (.errand n e)) (s.opens (.errand n e))) := by
  cases e with
  | fetch ask guarded =>
      cases hask : ask s.subject with
      | error x =>
          rw [opens_of_error (show s.asks (.errand n (.fetch ask guarded)) = .error x from hask)]
          simp only [Session.begin, hask]
          exact h.still (frames_finish s n _)
      | ok a =>
          rw [opens_of_ok (show s.asks (.errand n (.fetch ask guarded)) = .ok a from hask)]
          have hcall : UpToDate url (s.call (.errand n guarded) a) _ := h.call fun _ hid => by
            cases hid
          rw [called_errand] at hcall
          simp only [Session.begin, hask]
          exact hcall
  | awaitShown timeout =>
      rw [opens_of_error (show s.asks _ = .error .noParts from rfl)]
      exact h.still (frames_watch s n _ _)
  | awaitIdle =>
      rw [opens_of_error (show s.asks _ = .error .noParts from rfl)]
      refine h.still ?_
      simp only [Session.begin]
      split
      · exact frames_finish s n _
      · exact .of_eq rfl rfl rfl rfl rfl
  | change act timeout =>
      obtain ⟨editor, enabled, patience, he⟩ := he
      cases he
      obtain ⟨b, hb⟩ := hact _ _ rfl
      rw [opens_of_error (show s.asks _ = .error .noParts from rfl)]
      have htaken := h.takeSubject (Editor.setVisualCrop_told hb)
      simp only [Session.begin, show ((Editor.setVisualCrop enabled).run s.subject).result = .ok b
        from hb]
      cases b with
      | false => exact htaken.quiet (frames_finish _ n _)
      | true => exact htaken.quiet (frames_watch _ n _ _)

/-- What came of a call is brought to whoever waits for it. -/
theorem reply (h : UpToDate url s w) (call : Nat) :
    UpToDate url (s.runJob (.reply call)) (w.note s.preview (s.ran (.reply call)) []) := by
  simp only [runJob, ran]
  cases hc : s.calls[call]? with
  | none => exact h.still (Frames.refl s)
  | some c =>
      have hlong : call < w.asked.length := by
        rw [← h.fits.count]
        exact (List.getElem?_eq_some_iff.mp hc).1
      have ha : w.asked[call]? = some w.asked[call] := List.getElem?_eq_getElem hlong
      refine h.conclude fun u hu hasker hscheduled => ⟨w.asked[call], ?_, ?_⟩
      · exact (h.current hscheduled).calls call c _ hc ha hasker
      · refine h.fits.reply call c _ u hc ha ?_
        cases hreply : c.reply with
        | none =>
            rw [hreply] at hu
            cases hu
        | some outcome =>
            rw [hreply] at hu
            exact congrArg some hu

/-- A request reads the path of what is edited now. -/
theorem request (h : UpToDate url s w) {id : Nat} (hid : id ≤ s.preview.latest) :
    UpToDate url (s.runJob (.request id))
      (w.note s.preview (s.ran (.request id)) (s.opens (.request id))) := by
  cases hask : s.subject.previewAsk with
  | error x =>
      rw [opens_of_error (show s.asks (.request id) = .error x from hask),
        s.runJob_request_error hask id, ran, hask]
      refine h.conclude fun u hu => ?_
      cases hu
  | ok a =>
      rw [opens_of_ok (show s.asks (.request id) = .ok a from hask),
        s.runJob_request_ok hask id, ran, hask]
      refine h.call fun i hi => ?_
      cases hi
      exact ⟨hid, hask⟩

/-- A job that stands in line of a regular run leaves all current. -/
theorem runJob {j : Job Editor} (h : UpToDate url s w) (hj : j.Regular s.preview.latest)
    (hact : ∀ n act timeout, j = .errand n (.change act timeout) →
      ∃ b, (act s.subject).1 = .ok b) :
    UpToDate url (s.runJob j) (w.note s.preview (s.ran j) (s.opens j)) := by
  cases j with
  | request id => exact h.request hj
  | errand n e => exact h.begin hj fun act timeout he => hact n act timeout (by rw [he])
  | requestOff id =>
      rw [opens_of_error (show s.asks _ = .error .noParts from rfl)]
      have hoff : UpToDate url (s.conclude (.preview id) .withdrawn) _ :=
        h.conclude fun u hu => by cases hu
      exact hoff
  | reply call =>
      rw [opens_of_error (show s.asks _ = .error .noParts from rfl)]
      exact h.reply call
  | alarm serial a =>
      rw [opens_of_error (show s.asks _ = .error .noParts from rfl)]
      simp only [Session.runJob, ran]
      split
      · exact h.still (Frames.refl s)
      · exact h.ring a
  | idle n =>
      rw [opens_of_error (show s.asks _ = .error .noParts from rfl)]
      exact h.still (frames_finish s n _)
  | lateNext n announces =>
      rw [opens_of_error (show s.asks _ = .error .noParts from rfl)]
      exact h.still (frames_enqueue s trivial)
  | resume n announces shown =>
      rw [opens_of_error (show s.asks _ = .error .noParts from rfl)]
      exact h.still (frames_resume s n announces shown)

/-- An answer by hand brings the URL of what was asked for. -/
theorem setReply (h : UpToDate url s w) (call : Nat) (outcome : Preview.Outcome)
    (hurl : ∀ u, outcome = .url u → ∃ a, w.asked[call]? = some a ∧ u = url a.path) :
    UpToDate url (s.setReply call outcome) w := by
  -- Each call is the one before, with a new reply if it is the one that is answered.
  have hcalls : ∀ (i : Nat) (c : Call), (s.setReply call outcome).calls[i]? = some c →
      ∃ b : Call, s.calls[i]? = some b ∧ c.asker = b.asker ∧
        (c.reply = b.reply ∨ (i = call ∧ c.reply = some outcome)) := by
    intro i c hc
    have hc : (s.calls.modify call fun c => { c with reply := some outcome })[i]? = some c := hc
    rw [List.getElem?_modify] at hc
    obtain ⟨b, hb, hbc⟩ := Option.map_eq_some_iff.mp hc
    refine ⟨b, hb, ?_⟩
    split at hbc
    · rename_i hi
      subst hbc
      exact ⟨rfl, .inr ⟨hi.symm, rfl⟩⟩
    · subst hbc
      exact ⟨rfl, .inl rfl⟩
  obtain ⟨⟨hgenerator, hshown, hcount, hreply, hasker, hready⟩, hcurrent⟩ := h
  refine ⟨⟨hgenerator, hshown, ?_, ?_, ?_, hready⟩, fun hscheduled => ⟨?_, ?_⟩⟩
  · exact (List.length_modify ..).trans hcount
  · intro i c a u hc ha hu
    obtain ⟨b, hb, -, hsame | ⟨rfl, hnew⟩⟩ := hcalls i c hc
    · exact hreply i b a u hb ha (hsame ▸ hu)
    · rw [hnew] at hu
      obtain ⟨a', ha', hu⟩ := hurl u (Option.some.inj hu)
      cases ha.symm.trans ha'
      exact hu
  · intro i c a id hc ha hid
    obtain ⟨b, hb, hsame, -⟩ := hcalls i c hc
    exact hasker i b a id hb ha (hsame ▸ hid)
  · intro i c a hc ha hlatest
    obtain ⟨b, hb, hsame, -⟩ := hcalls i c hc
    exact (hcurrent hscheduled).calls i b a hb ha (hsame ▸ hlatest)
  · exact (hcurrent hscheduled).ended

theorem answer (h : UpToDate url s w) (n : Nat) (outcome : Preview.Outcome)
    (hurl : ∀ u, outcome = .url u → ∃ a, w.asked[n - 1]? = some a ∧ u = url a.path) :
    UpToDate url (s.answer n outcome).2 w := by
  unfold Session.answer
  split
  · exact h
  · split
    · exact h
    · split
      · exact h
      · exact (h.setReply _ outcome hurl).quiet (frames_enqueue _ trivial)

theorem line {js : List (Job Editor)} (h : UpToDate url s w)
    (hjs : ∀ j ∈ js, j.Regular s.preview.latest) : UpToDate url { s with ready := js } w :=
  ⟨{ h.fits with ready := hjs }, fun hscheduled => { h.current hscheduled with }⟩

/-- Whatever happens in a regular run leaves all current. -/
theorem happen {x : Happening} (h : UpToDate url s w) (hx : Session.Regular url s w x) :
    UpToDate url (s.happen x) (w.through s x) := by
  cases x with
  | command c =>
      obtain ⟨hc, a, ha⟩ := hx
      exact h.takeSubject (Editor.carryOut_told hc ha)
  | ring a => exact h.ring a
  | answer n outcome =>
      have hanswer : UpToDate url (s.answer n outcome).2 w := h.answer n outcome fun u hu => by
        subst hu
        exact hx
      exact hanswer.still (Frames.refl _)
  | run place =>
      simp only [Session.happen, Watch.through, moves, opened]
      cases hj : s.ready[place]? with
      | none => exact h.still (Frames.refl s)
      | some j =>
          have hregular := h.fits.ready j (List.mem_of_getElem? hj)
          have hothers : UpToDate url { s with ready := s.ready.eraseIdx place } w :=
            h.line fun k hk => h.fits.ready k (List.mem_of_mem_eraseIdx hk)
          exact hothers.runJob hregular fun n act timeout he => hx n act timeout (by rw [hj, he])
  | send e =>
      have hsent : UpToDate url { s with ready := s.ready ++ [.errand (s.errands + 1) e] } w := by
        refine h.line fun j hj => ?_
        rcases List.mem_append.mp hj with hj | hj
        · exact h.fits.ready j hj
        · cases List.mem_singleton.mp hj
          exact hx
      exact hsent.still (.of_eq rfl rfl rfl rfl rfl)
  | serve generator =>
      have hserved : UpToDate url { s with generator } w :=
        ⟨{ h.fits with generator := hx }, fun hscheduled => { h.current hscheduled with }⟩
      exact hserved.still (Frames.refl _)
  | pass scheduler waits due =>
      have hdue : UpToDate url
          { s with ready := s.ready ++ due.map fun t => .alarm t.1 t.2 } w := by
        refine h.line fun j hj => ?_
        rcases List.mem_append.mp hj with hj | hj
        · exact h.fits.ready j hj
        · obtain ⟨t, -, rfl⟩ := List.mem_map.mp hj
          exact trivial
      exact hdue.still (.of_eq rfl rfl rfl rfl rfl)

end UpToDate

/-- In a regular run all is current, unless a preview waits for its pause. -/
theorem Reached.upToDate {start : Session Editor} (h : Reached url start s w)
    (hstart : UpToDate url start {}) : UpToDate url s w := by
  induction h with
  | start => exact hstart
  | step _ hregular ih => exact ih.happen hregular

/-- **No preview is lost.**  In a session on an editor whose generator makes the URL of a path by a
function, take any succession of commands that succeed and do not destroy the editor, switches of
the crop mode, errands, ends of pauses, and answers to calls, which may also fail, be called off or
come although they were called off.  If then no preview waits for its pause and the latest request
has ended with a URL, this is the URL of the path of what is edited now, and it is the one that was
shown last since the previews were reset. -/
theorem shows_latest {url : String → String} (e : Editor) (generator : Generator) (byHand : Bool)
    (hgenerator : generator.Follows url) {s : Session Editor} {w : Watch}
    (hs : Reached url (e.session generator byHand) s w) (hscheduled : s.preview.scheduled = false)
    {u : String} (hended : w.ended = some (.url u)) :
    ∃ path, s.subject.currentPath true = .ok path ∧ s.preview.lastUrl = some (url path) ∧
      w.shown = some (url path) := by
  have hstart : UpToDate url (e.session generator byHand) {} := by
    refine ⟨⟨hgenerator, rfl, rfl, ?_, ?_, ?_⟩, fun _ => ⟨?_, ?_⟩⟩
    · exact fun i c a u hc => nomatch hc
    · exact fun i c a id hc => nomatch hc
    · exact fun j hj => nomatch hj
    · exact fun i c a hc => nomatch hc
    · exact fun u hu => nomatch hu
  have h := hs.upToDate hstart
  obtain ⟨a, hask, rfl, hlast⟩ := (h.current hscheduled).ended u hended
  obtain ⟨path, hpath, hask⟩ := of_bind_eq_ok hask
  obtain ⟨image, -, hask⟩ := of_bind_eq_ok hask
  cases hask
  exact ⟨path, hpath, hlast, h.fits.shown.trans hlast⟩

/-- An editor on an image whose size is not known. -/
def unsized : Editor := Editor.start {} "base.png" ⟨0, 0⟩ none

/-- What shows of an image without size does not depend on the scale. -/
theorem currentPath_unsized :
    unsized.currentPath true = .ok "filters:format(webp)/base.png" := by
  have htarget : unsized.root.params.scaledTarget (some ⟨0, 0⟩) (1 : Float) =
      .ok (none, none) := by
    unfold Params.scaledTarget
    extract_lets width height
    split
    · rfl
    · rfl
  show unsized.root.path "base.png" (some ⟨0, 0⟩)
    ({ forPreview := true, scale := (1 : Float) } : EncodeOptions Float) false none = _
  unfold State.path Params.path
  rw [htarget]
  exact of_toOption_eq_some rfl

/-- A session on it that has begun and whose first pause is over. -/
def paused : Session Editor :=
  ((unsized.session .echo true).happen (.command (.startOver true))).happen (.ring .previewPause)

theorem previewAsk_paused : paused.subject.previewAsk =
    .ok ⟨"base.png", "filters:format(webp)/base.png"⟩ := by
  show (do
    let path ← unsized.currentPath true
    return ⟨← unsized.currentImage, path⟩ : Except Failure Ask) = _
  rw [currentPath_unsized]
  rfl

theorem moves_paused : paused.moves (.run 0) =
    [.settle 1 (.url (echoBase ++ "filters:format(webp)/base.png"))] := by
  show paused.ran (.request 1) = _
  unfold ran
  rw [previewAsk_paused]
  rfl

/-- After the start, the first pause and the first request the image is shown. -/
theorem shows_latest_unsized : ∃ s w,
    Reached (echoBase ++ ·) (unsized.session .echo true) s w ∧ s.preview.scheduled = false ∧
      w.ended = some (.url (echoBase ++ "filters:format(webp)/base.png")) ∧
      ∃ path, s.subject.currentPath true = .ok path ∧
        s.preview.lastUrl = some (echoBase ++ path) ∧ w.shown = some (echoBase ++ path) := by
  have hstarted : Reached (echoBase ++ ·) (unsized.session .echo true) _ _ :=
    .step (h := .command (.startOver true)) .start
      ⟨(fun h => nomatch h), Command.Answer.done, rfl⟩
  have hpaused : Reached (echoBase ++ ·) (unsized.session .echo true) paused _ :=
    .step (h := .ring .previewPause) hstarted trivial
  have hfirst : paused.ready[0]? = some (.request 1) := rfl
  have hran : Reached (echoBase ++ ·) (unsized.session .echo true) (paused.happen (.run 0)) _ :=
    .step (h := .run 0) hpaused fun n act timeout h => nomatch hfirst.symm.trans h
  have hscheduled : (paused.happen (.run 0)).preview.scheduled = false := by
    rw [preview_happen, moves_paused]
    rfl
  have hended : ∀ w : Watch, (w.through paused (.run 0)).ended =
      some (.url (echoBase ++ "filters:format(webp)/base.png")) := by
    intro w
    unfold Watch.through
    rw [moves_paused]
    rfl
  exact ⟨_, _, hran, hscheduled, hended _,
    shows_latest unsized .echo true (fun _ => rfl) hran hscheduled (hended _)⟩

end Session

end Retouch
