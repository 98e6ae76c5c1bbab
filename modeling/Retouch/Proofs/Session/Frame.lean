/-
  What carrying out effects leaves alone.

  Effects of the subject and of its previews touch clocks, watchers and events.  They keep the
  subject and the generator, and every call stays with its asker; of the replies they can only take
  one back.  In line they put no errand, and no request later than the latest.  The previews are
  what the moves make of them that were ordered (`Frames`).
-/
import Retouch.Proofs.Editor.Orders
import Retouch.Session.Run

namespace Retouch

namespace Preview

/-! ## Moves -/

/-- What a session has its previews do. -/
inductive Move where
  | order (o : Order)
  | pauseOver
  | settle (request : Nat) (outcome : Outcome)

/-- Makes a move. -/
def move (p : Preview) : Move → Preview × List Effect
  | .order o => p.apply o
  | .pauseOver => p.pauseOver
  | .settle id outcome => p.settle id outcome

/-- The previews after moves. -/
def moved (p : Preview) (moves : List Move) : Preview := moves.foldl (fun p m => (p.move m).1) p

theorem moved_append (p : Preview) (ms ns : List Move) :
    p.moved (ms ++ ns) = (p.moved ms).moved ns := List.foldl_append ..

theorem moved_snoc (p : Preview) (ms : List Move) (m : Move) :
    p.moved (ms ++ [m]) = ((p.moved ms).move m).1 := p.moved_append ms [m]

/-- What holds wherever a list is cut holds at its last element and wherever the rest is cut. -/
theorem forall_cut_snoc {α : Type} {l : List α} {x : α} {P : List α → α → Prop} :
    (∀ before y after, l ++ [x] = before ++ y :: after → P before y) ↔
      (∀ before y after, l = before ++ y :: after → P before y) ∧ P l x := by
  constructor
  · intro h
    refine ⟨fun before y after hl => h before y (after ++ [x]) ?_, h l x [] rfl⟩
    rw [hl, List.append_assoc]
    rfl
  · rintro ⟨hl, hx⟩ before y after h
    rcases List.eq_nil_or_concat after with rfl | ⟨init, last, rfl⟩
    · obtain ⟨rfl, hlast⟩ := List.append_inj' h rfl
      cases hlast
      exact hx
    · have h : l ++ [x] = (before ++ y :: init) ++ [last] := by simpa using h
      obtain ⟨rfl, -⟩ := List.append_inj' h rfl
      exact hl before y init rfl

/-- The end of a request starts none. -/
theorem settle_keeps (p : Preview) (id : Nat) (outcome : Outcome) :
    (p.settle id outcome).1.latest = p.latest ∧
      (p.settle id outcome).1.scheduled = p.scheduled ∧
      ∀ n, .start n ∉ (p.settle id outcome).2 := by
  unfold settle
  split
  · cases outcome with
    | withdrawn => simp
    | failed cause =>
        by_cases hid : id = p.latest
        · simp [hid, setLoading]
        · simp [hid]
    | url u =>
        by_cases hid : id = p.latest
        · by_cases hlast : p.lastUrl = some u
          · simp [hid, hlast, setLoading]
          · simp [hid, hlast]
        · simp [hid]
  · simp

/-- All that is asked for to withdraw the current request is that. -/
theorem eq_withdraw_of_mem {p : Preview} {e : Effect} (h : e ∈ p.withdrawCurrent) :
    ∃ id, e = .withdraw id := by
  unfold withdrawCurrent at h
  split at h
  · rename_i id _
    split at h
    · exact ⟨id, List.mem_singleton.mp h⟩
    · cases h
  · cases h

theorem start_notMem_withdrawCurrent (p : Preview) (n : Nat) : .start n ∉ p.withdrawCurrent :=
  fun h => nomatch eq_withdraw_of_mem h

/-- A move never goes back to an older request, and starts none that is later than the latest. -/
theorem move_latest (p : Preview) (m : Move) :
    p.latest ≤ (p.move m).1.latest ∧
      ∀ n, .start n ∈ (p.move m).2 → n ≤ (p.move m).1.latest := by
  -- Both the end of a pause and a flush come to this.
  have hpause : p.latest ≤ p.pauseOver.1.latest ∧
      ∀ n, .start n ∈ p.pauseOver.2 → n ≤ p.pauseOver.1.latest := by
    refine ⟨Nat.le_succ _, fun n hn => ?_⟩
    rcases List.mem_append.mp hn with hn | hn
    · exact absurd hn (p.start_notMem_withdrawCurrent n)
    · cases List.mem_singleton.mp hn
      exact Nat.le_refl _
  cases m with
  | pauseOver => exact hpause
  | settle id outcome =>
      obtain ⟨hlatest, -, hstart⟩ := p.settle_keeps id outcome
      exact ⟨Nat.le_of_eq hlatest.symm, fun n hn => absurd hn (hstart n)⟩
  | order o =>
      cases o with
      | schedule =>
          show _ ≤ p.schedule.1.latest ∧ ∀ n, _ ∈ p.schedule.2 → n ≤ p.schedule.1.latest
          unfold schedule
          split <;> simp [setLoading]
      | flush =>
          show _ ≤ p.flush.1.latest ∧ ∀ n, _ ∈ p.flush.2 → n ≤ p.flush.1.latest
          unfold flush
          split
          · refine ⟨hpause.1, fun n hn => hpause.2 n ?_⟩
            simpa using hn
          · simp
      | reset => exact ⟨Nat.le_refl _, fun n hn => nomatch hn⟩
      | cancel =>
          refine ⟨Nat.le_refl _, fun n hn => ?_⟩
          have hn : .start n ∈ .stopWindow :: p.withdrawCurrent ++ [.dropWatchers] := hn
          simp [p.start_notMem_withdrawCurrent n] at hn
      | notifyLoaded =>
          show _ ≤ p.notifyLoaded.1.latest ∧ _
          simp [notifyLoaded, setLoading, move, apply]

theorem latest_le_moved (p : Preview) (ms : List Move) : p.latest ≤ (p.moved ms).latest := by
  induction ms generalizing p with
  | nil => exact Nat.le_refl _
  | cons m ms ih => exact Nat.le_trans (p.move_latest m).1 (ih (p.move m).1)

end Preview

namespace Session

variable {δ : Type}

/-- The moves that effects of the subject order. -/
def ordered (effects : List Editor.Effect) : List Preview.Move :=
  (Editor.orders effects).map .order

theorem ordered_cons (e : Editor.Effect) (es : List Editor.Effect) :
    ordered (e :: es) = ordered [e] ++ ordered es := by
  unfold ordered
  rw [← List.map_append, ← Editor.orders_append]
  rfl

/-- The move that the outcome of a call makes for whoever waits for it. -/
def concluded (outcome : Preview.Outcome) : Asker → List Preview.Move
  | .preview id => [.settle id outcome]
  | .errand _ _ => []

/-! ## What is left alone -/

/-- Whether effects may put a job in line when a request is the latest. -/
def Job.Tame (latest : Nat) : Job δ → Prop
  | .request id => id ≤ latest
  | .errand .. => False
  | _ => True

theorem Job.Tame.mono {j : Job δ} {m n : Nat} (h : j.Tame m) (hle : m ≤ n) : j.Tame n := by
  cases j with
  | request id => exact Nat.le_trans h hle
  | _ => exact h

/-- Whether a session is as carrying out effects may leave another one, where the previews make
some moves. -/
structure Frames (s t : Session δ) (moves : List Preview.Move) : Prop where
  subject : t.subject = s.subject
  generator : t.generator = s.generator
  count : t.calls.length = s.calls.length
  /-- A call stays with its asker; its reply may be taken back. -/
  calls : ∀ (i : Nat) (c : Call), t.calls[i]? = some c → ∃ b : Call, s.calls[i]? = some b ∧
    c.asker = b.asker ∧ (c.reply = b.reply ∨ c.reply = some .withdrawn)
  ready : ∀ j ∈ t.ready, j ∈ s.ready ∨ j.Tame t.preview.latest
  preview : t.preview = s.preview.moved moves

namespace Frames

variable {s t u : Session δ} {ms ns : List Preview.Move}

theorem latest (h : Frames s t ms) : s.preview.latest ≤ t.preview.latest := by
  rw [h.preview]
  exact s.preview.latest_le_moved ms

theorem trans (h : Frames s t ms) (h' : Frames t u ns) : Frames s u (ms ++ ns) where
  subject := h'.subject.trans h.subject
  generator := h'.generator.trans h.generator
  count := h'.count.trans h.count
  calls i c hc := by
    obtain ⟨b, hb, hasker, hreply⟩ := h'.calls i c hc
    obtain ⟨a, ha, hasker', hreply'⟩ := h.calls i b hb
    refine ⟨a, ha, hasker.trans hasker', ?_⟩
    rcases hreply with hreply | hreply
    · rw [hreply]
      exact hreply'
    · exact .inr hreply
  ready j hj := by
    rcases h'.ready j hj with hj | hj
    · rcases h.ready j hj with hj | hj
      · exact .inl hj
      · exact .inr (hj.mono h'.latest)
    · exact .inr hj
  preview := by rw [h'.preview, h.preview, Preview.moved_append]

/-- A session that differs only in its clocks, its watchers and what was heard of it. -/
theorem of_eq (hsubject : t.subject = s.subject) (hgenerator : t.generator = s.generator)
    (hcalls : t.calls = s.calls) (hready : t.ready = s.ready) (hpreview : t.preview = s.preview) :
    Frames s t [] where
  subject := hsubject
  generator := hgenerator
  count := by rw [hcalls]
  calls i c hc := ⟨c, hcalls ▸ hc, rfl, .inl rfl⟩
  ready j hj := .inl (hready ▸ hj)
  preview := hpreview

theorem refl (s : Session δ) : Frames s s [] := .of_eq rfl rfl rfl rfl rfl

/-- Steps along a list that each leave all alone. -/
theorem foldl {α : Type} {f : Session δ → α → Session δ} (as : List α) (s : Session δ)
    (h : ∀ s a, Frames s (f s a) []) : Frames s (as.foldl f s) [] := by
  induction as generalizing s with
  | nil => exact refl s
  | cons a as ih => exact (h s a).trans (ih (f s a))

end Frames

/-! ## Steps -/

theorem frames_log (s : Session δ) (e : Event) : Frames s (s.log e) [] := .of_eq rfl rfl rfl rfl rfl

theorem frames_notify [Subject δ] (s : Session δ) (e : Event) : Frames s (s.notify e) [] := by
  unfold notify
  split
  · exact frames_log s e
  · exact Frames.refl s

theorem frames_enqueue (s : Session δ) {j : Job δ} (hj : j.Tame s.preview.latest) :
    Frames s (s.enqueue j) [] where
  subject := rfl
  generator := rfl
  count := rfl
  calls i c hc := ⟨c, hc, rfl, .inl rfl⟩
  ready k hk := by
    rcases List.mem_append.mp hk with hk | hk
    · exact .inl hk
    · cases List.mem_singleton.mp hk
      exact .inr hj
  preview := rfl

/-- Working a window leaves all but the clocks. -/
theorem frames_onPauseClock (s : Session δ)
    (f : Clock Float Alarm → Window Float × Clock Float Alarm) :
    Frames s (s.onPauseClock f).2 [] := by
  unfold onPauseClock
  split
  · exact .of_eq rfl rfl rfl rfl rfl
  · exact .of_eq rfl rfl rfl rfl rfl

theorem frames_setReply (s : Session δ) (call : Nat) :
    Frames s (s.setReply call .withdrawn) [] where
  subject := rfl
  generator := rfl
  count := List.length_modify ..
  calls i c hc := by
    have hc : (s.calls.modify call fun c => { c with reply := some .withdrawn })[i]? = some c := hc
    rw [List.getElem?_modify] at hc
    obtain ⟨b, hb, hbc⟩ := Option.map_eq_some_iff.mp hc
    refine ⟨b, hb, ?_⟩
    split at hbc
    · subst hbc
      exact ⟨rfl, .inr rfl⟩
    · subst hbc
      exact ⟨rfl, .inl rfl⟩
  ready j hj := .inl hj
  preview := rfl

theorem frames_withdraw (s : Session δ) (id : Nat) : Frames s (s.withdraw id) [] := by
  unfold withdraw
  split
  -- Not begun yet: its place in line is taken over by a job that only ends it.
  · constructor
    case calls => exact fun i c hc => ⟨c, hc, rfl, .inl rfl⟩
    case ready =>
      intro j hj
      obtain ⟨k, hk, hkj⟩ := List.mem_map.mp hj
      split at hkj
      · subst hkj
        exact .inr trivial
      · subst hkj
        exact .inl hk
    all_goals rfl
  · split
    · exact Frames.refl s
    · split
      · exact Frames.refl s
      · split
        · exact Frames.refl s
        · split
          · exact frames_setReply s _
          · exact (frames_setReply s _).trans (frames_enqueue _ trivial)

theorem frames_wake (shown : Option Bool) (s : Session δ) (w : Watcher) :
    Frames s (wake shown s w) [] := by
  unfold wake
  extract_lets t
  have ht : Frames s t [] := by
    simp only [t]
    split
    · exact .of_eq rfl rfl rfl rfl rfl
    · exact Frames.refl s
  exact ht.trans (frames_enqueue t trivial)

theorem frames_wakeAll (s : Session δ) (shown : Option Bool) : Frames s (s.wakeAll shown) [] := by
  have hnone : Frames s { s with watchers := [] } [] := .of_eq rfl rfl rfl rfl rfl
  exact hnone.trans (Frames.foldl _ _ (frames_wake shown))

theorem frames_wakeIdlers (s : Session δ) (id : Nat) : Frames s (s.wakeIdlers id) [] := by
  unfold wakeIdlers
  split
  rename_i woken others _
  have hothers : Frames s { s with idlers := others } [] := .of_eq rfl rfl rfl rfl rfl
  exact hothers.trans (Frames.foldl _ _ fun s w => frames_enqueue s trivial)

theorem frames_finish (s : Session δ) (n : Nat) (r : Finish) : Frames s (s.finish n r) [] :=
  frames_log s _

theorem frames_watch (s : Session δ) (n : Nat) (announces : Bool) (timeout : Option Float) :
    Frames s (s.watch n announces timeout) [] := by
  unfold watch
  split
  · exact .of_eq rfl rfl rfl rfl rfl
  · split
    · exact frames_enqueue s trivial
    · exact .of_eq rfl rfl rfl rfl rfl

section

variable [Subject δ]

/-! ## Effects -/

theorem frames_performPreview (s : Session δ) {e : Preview.Effect}
    (he : ∀ n, e = .start n → n ≤ s.preview.latest) : Frames s (s.performPreview e) [] := by
  have hwindow : ∀ f, Frames s
      { (s.onPauseClock f).2 with previewWindow := (s.onPauseClock f).1 } [] := fun f =>
    (s.frames_onPauseClock f).trans (.of_eq rfl rfl rfl rfl rfl)
  cases e with
  | notice n => exact frames_notify s _
  | restartWindow => exact hwindow fun c => s.previewWindow.restart c .previewPause
  | stopWindow => exact hwindow s.previewWindow.stop
  | start n => exact frames_enqueue s (he n rfl)
  | withdraw id => exact frames_withdraw s id
  | releaseWatchers => exact frames_wakeAll s _
  | dropWatchers => exact frames_wakeAll s _

/-- A move of the previews is all that becomes of them, and it leaves the rest alone. -/
theorem frames_takePreview (s : Session δ) (m : Preview.Move) :
    Frames s (s.takePreview (s.preview.move m)) [m] := by
  obtain ⟨-, hstarts⟩ := s.preview.move_latest m
  -- The latest request is that after the move as long as its effects are carried out.
  have hfold : ∀ (es : List Preview.Effect) (t : Session δ),
      (∀ n, .start n ∈ es → n ≤ t.preview.latest) → Frames t (es.foldl performPreview t) [] := by
    intro es
    induction es with
    | nil => exact fun t _ => Frames.refl t
    | cons e es ih =>
        intro t hes
        have hfirst : Frames t (t.performPreview e) [] :=
          frames_performPreview t fun n hn => hes n (hn ▸ List.mem_cons_self)
        refine hfirst.trans (ih (t.performPreview e) fun n hn => ?_)
        exact Nat.le_trans (hes n (List.mem_cons_of_mem e hn)) hfirst.latest
  exact { hfold (s.preview.move m).2 { s with preview := (s.preview.move m).1 } hstarts with }

theorem frames_perform (s : Session δ) (e : Editor.Effect) :
    Frames s (s.perform e) (ordered [e]) := by
  have hwindow : ∀ f, Frames s
      { (s.onPauseClock f).2 with historyWindow := (s.onPauseClock f).1 } [] := fun f =>
    (s.frames_onPauseClock f).trans (.of_eq rfl rfl rfl rfl rfl)
  cases e with
  | announce state => exact frames_notify s _
  | preview o => exact s.frames_takePreview (.order o)
  | history e =>
      cases e with
      | changed => exact frames_notify s _
      | restartWindow => exact hwindow fun c => s.historyWindow.restart c .historyPause
      | stopWindow => exact hwindow s.historyWindow.stop

/-- What an operation on the subject asks for leaves all but the subject alone, and the previews
make the moves that it orders. -/
theorem frames_takeSubject (s : Session δ) (subject : δ) (effects : List Editor.Effect) :
    Frames { s with subject } (s.takeSubject subject effects) (ordered effects) := by
  have hfold : ∀ (es : List Editor.Effect) (t : Session δ),
      Frames t (es.foldl perform t) (ordered es) := by
    intro es
    induction es with
    | nil => exact Frames.refl
    | cons e es ih =>
        intro t
        rw [ordered_cons]
        exact (frames_perform t e).trans (ih (t.perform e))
  exact hfold effects { s with subject }

theorem subject_takeSubject (s : Session δ) (subject : δ) (effects : List Editor.Effect) :
    (s.takeSubject subject effects).subject = subject :=
  (s.frames_takeSubject subject effects).subject

/-! ## Steps of jobs -/

theorem frames_conclude (s : Session δ) (asker : Asker) (outcome : Preview.Outcome) :
    Frames s (s.conclude asker outcome) (concluded outcome asker) := by
  cases asker with
  | preview id =>
      exact (s.frames_takePreview (.settle id outcome)).trans (frames_wakeIdlers _ id)
  | errand n guarded => exact frames_finish s n _

theorem frames_resume (s : Session δ) (n : Nat) (announces : Bool) (shown : Option Bool) :
    Frames s (s.resume n announces shown) [] := by
  unfold resume
  split
  · exact frames_finish s n _
  · split
    · split
      · exact frames_finish s n _
      · exact frames_finish s n _
      · exact (frames_notify s _).trans (frames_finish _ n _)
    · exact frames_finish s n _

end

end Session

end Retouch
