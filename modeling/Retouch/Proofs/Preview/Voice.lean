/-
  Only the latest request speaks.

  Several requests can be under way at once: one that is withdrawn may still bring a URL or a
  failure, and it may do so at any time.  A journal of a run (`journal`) notes which requests start,
  what observers are told and by whom, and when the URL that is shown is forgotten.  In the journal
  of every run the speaker is the request that started last, nobody speaks twice, and no URL is
  shown twice in a row (`latest_speaks`).

  The invariant (`Fenced`) ties the journal to what is known about previews: whoever spoke is not
  under way any more, and the URL shown last is the one that the next one is compared with.
-/
import Mathlib.Data.List.Chain
import Retouch.Proofs.Session.Frame

namespace Retouch.Preview

/-! ## Journals -/

/-- What is noted of a run. -/
inductive Note where
  | started (request : Nat)
  /-- Observers are shown a URL or told of a failure, by the request that ends if one does. -/
  | told (speaker : Option Nat) (n : Notice)
  /-- The URL that is shown is forgotten. -/
  | forgot

/-- The request that ends in a move. -/
def Move.ending? : Move → Option Nat
  | .settle id _ => some id
  | _ => none

/-- What is noted of an effect; whether a preview is loading is noted by nobody. -/
def Note.ofEffect? (speaker : Option Nat) : Effect → Option Note
  | .start id => some (.started id)
  | .notice (.shown u) => some (.told speaker (.shown u))
  | .notice (.failed cause) => some (.told speaker (.failed cause))
  | _ => none

/-- What is noted of a move. -/
def notes (p : Preview) (m : Move) : List Note :=
  (match m with
    | .order .reset => [.forgot]
    | _ => []) ++ (p.move m).2.filterMap (Note.ofEffect? m.ending?)

/-- What is noted of a run. -/
def journal (p : Preview) : List Move → List Note
  | [] => []
  | m :: ms => p.notes m ++ (p.move m).1.journal ms

theorem journal_append (p : Preview) (ms ns : List Move) :
    p.journal (ms ++ ns) = p.journal ms ++ (p.moved ms).journal ns := by
  induction ms generalizing p with
  | nil => rfl
  | cons m ms ih =>
      show p.notes m ++ (p.move m).1.journal (ms ++ ns) = _
      rw [ih, ← List.append_assoc]
      rfl

theorem journal_snoc (p : Preview) (ms : List Move) (m : Move) :
    p.journal (ms ++ [m]) = p.journal ms ++ (p.moved ms).notes m := by
  rw [journal_append]
  exact congrArg _ (List.append_nil _)

/-- The requests that start in a journal. -/
def startedIn (ns : List Note) : List Nat :=
  ns.filterMap fun
    | .started id => some id
    | _ => none

/-- The requests that speak in a journal, once for each time. -/
def speakersIn (ns : List Note) : List Nat :=
  ns.filterMap fun
    | .told (some id) _ => some id
    | _ => none

/-- The URLs that are shown in a journal, nothing where the one that is shown is forgotten. -/
def shownIn (ns : List Note) : List (Option String) :=
  ns.filterMap fun
    | .told _ (.shown u) => some (some u)
    | .forgot => some none
    | _ => none

/-! ## What a move can do -/

/-- What becomes of previews in a move, and what is noted of it. -/
inductive Turn (p : Preview) : Preview → List Note → Prop where
  /-- Nothing is noted; at most a request ends. -/
  | quiet {q : Preview} (latest : q.latest = p.latest) (url : q.lastUrl = p.lastUrl)
      (running : q.running.Sublist p.running) : Turn p q []
  /-- A request starts. -/
  | starts {q : Preview} (latest : q.latest = p.latest + 1) (url : q.lastUrl = p.lastUrl)
      (running : q.running = p.running ++ [p.latest + 1]) : Turn p q [.started (p.latest + 1)]
  | forgets : Turn p { p with lastUrl := none } [.forgot]
  /-- The latest request fails. -/
  | fails {q : Preview} (latest : q.latest = p.latest) (url : q.lastUrl = p.lastUrl)
      (here : p.latest ∈ p.running) (running : q.running = p.running.erase p.latest)
      (cause : Failure) : Turn p q [.told (some p.latest) (.failed cause)]
  /-- The latest request shows a URL that is not shown yet. -/
  | shows {q : Preview} (latest : q.latest = p.latest) (u : String) (old : p.lastUrl ≠ some u)
      (url : q.lastUrl = some u) (here : p.latest ∈ p.running)
      (running : q.running = p.running.erase p.latest) :
      Turn p q [.told (some p.latest) (.shown u)]

theorem notes_withdrawCurrent (p : Preview) (speaker : Option Nat) :
    p.withdrawCurrent.filterMap (Note.ofEffect? speaker) = [] := by
  refine List.filterMap_eq_nil_iff.mpr fun e he => ?_
  obtain ⟨id, rfl⟩ := eq_withdraw_of_mem he
  rfl

theorem turn_pauseOver (p : Preview) {es : List Effect} {speaker : Option Nat}
    (hes : es = p.pauseOver.2 ∨ es = .stopWindow :: p.pauseOver.2) :
    Turn p p.pauseOver.1 (es.filterMap (Note.ofEffect? speaker)) := by
  have hnotes : es.filterMap (Note.ofEffect? speaker) = [.started (p.latest + 1)] := by
    have hpause : p.pauseOver.2.filterMap (Note.ofEffect? speaker) = [.started (p.latest + 1)] := by
      show (p.withdrawCurrent ++ [Effect.start (p.latest + 1)]).filterMap _ = _
      rw [List.filterMap_append, notes_withdrawCurrent]
      rfl
    rcases hes with rfl | rfl
    · exact hpause
    · exact hpause
  rw [hnotes]
  exact .starts rfl rfl rfl

theorem turn_settle (p : Preview) (id : Nat) (outcome : Outcome) :
    Turn p (p.settle id outcome).1 (p.notes (.settle id outcome)) := by
  show Turn p _ ((p.settle id outcome).2.filterMap (Note.ofEffect? (some id)))
  unfold settle
  split
  · rename_i hrunning
    have hless : (p.running.erase id).Sublist p.running := List.erase_sublist
    -- Only the latest request is heard; the others end without a word.
    cases outcome with
    | withdrawn => exact .quiet rfl rfl hless
    | failed cause =>
        by_cases hid : id = p.latest
        · subst hid
          simp only [if_true]
          refine .fails ?_ ?_ hrunning ?_ (failure cause)
          · rfl
          · rfl
          · rfl
        · simp only [if_neg hid]
          exact .quiet rfl rfl hless
    | url u =>
        by_cases hid : id = p.latest
        · subst hid
          by_cases hlast : p.lastUrl = some u
          · simp only [ne_eq, not_true_eq_false, if_false, if_pos hlast]
            exact .quiet rfl rfl hless
          · simp only [ne_eq, not_true_eq_false, if_false, if_neg hlast]
            refine .shows ?_ u hlast ?_ hrunning ?_
            · rfl
            · rfl
            · rfl
        · simp only [ne_eq, hid, not_false_eq_true, if_true]
          exact .quiet rfl rfl hless
  · exact .quiet rfl rfl (List.Sublist.refl _)

/-- Every move is one of these turns. -/
theorem turn_move (p : Preview) (m : Move) : Turn p (p.move m).1 (p.notes m) := by
  cases m with
  | pauseOver => exact p.turn_pauseOver (.inl rfl)
  | settle id outcome => exact p.turn_settle id outcome
  | order o =>
      cases o with
      | schedule =>
          show Turn p p.schedule.1 (p.schedule.2.filterMap _)
          unfold schedule
          split
          · exact .quiet rfl rfl (List.Sublist.refl _)
          · exact .quiet rfl rfl (List.Sublist.refl _)
      | flush =>
          show Turn p p.flush.1 (p.flush.2.filterMap _)
          unfold flush
          split
          · exact p.turn_pauseOver (.inr rfl)
          · exact .quiet rfl rfl (List.Sublist.refl _)
      | reset => exact .forgets
      | cancel =>
          have hnotes : p.notes (.order .cancel) = [] := by
            show (Effect.stopWindow :: p.withdrawCurrent ++ [Effect.dropWatchers]).filterMap
              (Note.ofEffect? none) = []
            rw [List.filterMap_append, List.filterMap_cons_none rfl, notes_withdrawCurrent]
            rfl
          rw [hnotes]
          exact .quiet rfl rfl (List.Sublist.refl _)
      | notifyLoaded => exact .quiet rfl rfl (List.Sublist.refl _)

/-! ## What every run keeps -/

/-- Whether a URL may be shown after another one, or after it was forgotten. -/
def Differs (a b : Option String) : Prop := ∀ u, a = some u → b ≠ some u

/-- Whether what is told in a journal is told by the request that started last before it. -/
def ByLatest (j : List Note) : Prop :=
  ∀ before note after, j = before ++ note :: after → ∀ speaker n, note = .told speaker n →
    ∃ id, speaker = some id ∧ id ∈ startedIn before ∧ ∀ k ∈ startedIn before, k ≤ id

/-- Whether previews fit the journal of the run that led to them. -/
structure Fenced (p : Preview) (j : List Note) : Prop where
  told : ByLatest j
  started : ∀ k ∈ startedIn j, k ≤ p.latest
  running : ∀ id ∈ p.running, id ∈ startedIn j
  nodup : p.running.Nodup
  order : (speakersIn j).Pairwise (· < ·)
  /-- Whoever spoke has ended. -/
  spoken : ∀ id ∈ speakersIn j, id ≤ p.latest ∧ id ∉ p.running
  urls : (shownIn j).IsChain Differs
  /-- The URL shown last is the one that was not forgotten. -/
  last : ∀ u, (shownIn j).getLast? = some (some u) → p.lastUrl = some u

theorem ByLatest.snoc {j : List Note} {note : Note} (hj : ByLatest j)
    (hnote : ∀ speaker n, note = .told speaker n →
      ∃ id, speaker = some id ∧ id ∈ startedIn j ∧ ∀ k ∈ startedIn j, k ≤ id) :
    ByLatest (j ++ [note]) := forall_cut_snoc.mpr ⟨hj, hnote⟩

namespace Fenced

variable {p q : Preview} {j : List Note}

theorem empty : Fenced {} [] where
  told before note after h := by simp at h
  started k hk := by cases hk
  running id hid := by cases hid
  nodup := List.nodup_nil
  order := List.Pairwise.nil
  spoken id hid := by cases hid
  urls := List.isChain_nil
  last u hu := by cases hu

/-- The latest request, if it is under way, started last and has not spoken yet. -/
theorem latest (h : Fenced p j) (here : p.latest ∈ p.running) :
    (p.latest ∈ startedIn j ∧ ∀ k ∈ startedIn j, k ≤ p.latest) ∧
      ∀ id ∈ speakersIn j, id < p.latest := by
  refine ⟨⟨h.running _ here, h.started⟩, fun id hid => ?_⟩
  -- Whoever spoke has ended, and the latest request has not.
  obtain ⟨hle, hnot⟩ := h.spoken id hid
  have hne : id ≠ p.latest := fun heq => hnot (heq ▸ here)
  omega

/-- The latest request speaks and ends. -/
theorem speak (h : Fenced p j) (hlatest : q.latest = p.latest) (here : p.latest ∈ p.running)
    (hrunning : q.running = p.running.erase p.latest) {n : Notice}
    (hurls : (shownIn (j ++ [.told (some p.latest) n])).IsChain Differs)
    (hlast : ∀ u, (shownIn (j ++ [.told (some p.latest) n])).getLast? = some (some u) →
      q.lastUrl = some u) : Fenced q (j ++ [.told (some p.latest) n]) := by
  obtain ⟨hfirst, hbefore⟩ := h.latest here
  have hstarted : startedIn (j ++ [.told (some p.latest) n]) = startedIn j := by
    simp [startedIn]
  have hspeakers : speakersIn (j ++ [.told (some p.latest) n]) = speakersIn j ++ [p.latest] := by
    simp [speakersIn]
  refine ⟨h.told.snoc ?_, ?_, ?_, ?_, ?_, ?_, hurls, hlast⟩
  · rintro speaker n' heq
    cases heq
    exact ⟨p.latest, rfl, hfirst⟩
  · rw [hstarted, hlatest]
    exact h.started
  · rw [hstarted, hrunning]
    exact fun id hid => h.running id (List.mem_of_mem_erase hid)
  · rw [hrunning]
    exact h.nodup.erase _
  · rw [hspeakers]
    refine List.pairwise_append.mpr ⟨h.order, List.pairwise_singleton _ _, fun id hid k hk => ?_⟩
    rw [List.mem_singleton.mp hk]
    exact hbefore id hid
  · rw [hspeakers, hlatest, hrunning]
    intro id hid
    rcases List.mem_append.mp hid with hid | hid
    · obtain ⟨hle, hnot⟩ := h.spoken id hid
      exact ⟨hle, fun hmem => hnot (List.mem_of_mem_erase hmem)⟩
    · rw [List.mem_singleton.mp hid]
      exact ⟨Nat.le_refl _, h.nodup.not_mem_erase⟩

/-- At most a request ends. -/
theorem rest (h : Fenced p j) (hlatest : q.latest = p.latest) (hurl : q.lastUrl = p.lastUrl)
    (hrunning : q.running.Sublist p.running) : Fenced q j := by
  refine ⟨h.told, ?_, ?_, h.nodup.sublist hrunning, h.order, ?_, h.urls, ?_⟩
  · rw [hlatest]
    exact h.started
  · exact fun id hid => h.running id (hrunning.subset hid)
  · intro id hid
    rw [hlatest]
    obtain ⟨hle, hnot⟩ := h.spoken id hid
    exact ⟨hle, fun hmem => hnot (hrunning.subset hmem)⟩
  · rw [hurl]
    exact h.last

/-- A request starts; its number is new. -/
theorem commence (h : Fenced p j) (hlatest : q.latest = p.latest + 1) (hurl : q.lastUrl = p.lastUrl)
    (hrunning : q.running = p.running ++ [p.latest + 1]) :
    Fenced q (j ++ [.started (p.latest + 1)]) := by
  have hstarted : startedIn (j ++ [.started (p.latest + 1)]) = startedIn j ++ [p.latest + 1] := by
    simp [startedIn]
  have hspeakers : speakersIn (j ++ [.started (p.latest + 1)]) = speakersIn j := by
    simp [speakersIn]
  have hshown : shownIn (j ++ [.started (p.latest + 1)]) = shownIn j := by
    simp [shownIn]
  have hnew : ∀ id ∈ p.running, id ≤ p.latest := fun id hid => h.started id (h.running id hid)
  refine ⟨h.told.snoc (fun _ _ heq => nomatch heq), ?_, ?_, ?_, ?_, ?_, ?_, ?_⟩
  · rw [hstarted, hlatest]
    intro k hk
    rcases List.mem_append.mp hk with hk | hk
    · exact Nat.le_succ_of_le (h.started k hk)
    · exact Nat.le_of_eq (List.mem_singleton.mp hk)
  · rw [hstarted, hrunning]
    intro id hid
    rcases List.mem_append.mp hid with hid | hid
    · exact List.mem_append_left _ (h.running id hid)
    · exact List.mem_append_right _ hid
  · rw [hrunning]
    refine List.nodup_append.mpr ⟨h.nodup, List.nodup_cons.mpr ⟨List.not_mem_nil, List.nodup_nil⟩,
      fun id hid k hk => ?_⟩
    rw [List.mem_singleton.mp hk]
    exact Nat.ne_of_lt (Nat.lt_succ_of_le (hnew id hid))
  · rw [hspeakers]
    exact h.order
  · rw [hspeakers, hlatest, hrunning]
    intro id hid
    obtain ⟨hle, hnot⟩ := h.spoken id hid
    refine ⟨Nat.le_succ_of_le hle, fun hmem => ?_⟩
    rcases List.mem_append.mp hmem with hmem | hmem
    · exact hnot hmem
    · have hid : id = p.latest + 1 := List.mem_singleton.mp hmem
      omega
  · rw [hshown]
    exact h.urls
  · rw [hshown, hurl]
    exact h.last

/-- The URL that is shown is forgotten, and may be shown again. -/
theorem forget (h : Fenced p j) : Fenced { p with lastUrl := none } (j ++ [.forgot]) := by
  have hstarted : startedIn (j ++ [.forgot]) = startedIn j := by
    simp [startedIn]
  have hspeakers : speakersIn (j ++ [.forgot]) = speakersIn j := by
    simp [speakersIn]
  have hshown : shownIn (j ++ [.forgot]) = shownIn j ++ [none] := by
    simp [shownIn]
  refine ⟨h.told.snoc (fun _ _ heq => nomatch heq), ?_, ?_, h.nodup, ?_, ?_, ?_, ?_⟩
  · rw [hstarted]
    exact h.started
  · rw [hstarted]
    exact h.running
  · rw [hspeakers]
    exact h.order
  · rw [hspeakers]
    exact h.spoken
  · rw [hshown]
    refine List.isChain_append.mpr ⟨h.urls, List.isChain_singleton _, ?_⟩
    intro a ha b hb u hau hbu
    subst hbu
    cases hb
  · intro u hu
    rw [hshown, List.getLast?_concat] at hu
    cases hu

/-- The latest request shows a URL other than the one that was not forgotten. -/
theorem display (h : Fenced p j) (hlatest : q.latest = p.latest) {u : String}
    (old : p.lastUrl ≠ some u) (hurl : q.lastUrl = some u) (here : p.latest ∈ p.running)
    (hrunning : q.running = p.running.erase p.latest) :
    Fenced q (j ++ [.told (some p.latest) (.shown u)]) := by
  have hshown : shownIn (j ++ [.told (some p.latest) (.shown u)]) = shownIn j ++ [some u] := by
    simp [shownIn]
  refine h.speak hlatest here hrunning ?_ ?_
  · rw [hshown]
    refine List.isChain_append.mpr ⟨h.urls, List.isChain_singleton _, ?_⟩
    intro a ha b hb v hav hbv
    subst hav hbv
    cases hb
    exact old (h.last u ha)
  · intro v hv
    rw [hshown, List.getLast?_concat] at hv
    rw [hurl]
    exact Option.some.inj hv

/-- The latest request fails. -/
theorem fail (h : Fenced p j) (hlatest : q.latest = p.latest) (hurl : q.lastUrl = p.lastUrl)
    (here : p.latest ∈ p.running) (hrunning : q.running = p.running.erase p.latest)
    (cause : Failure) : Fenced q (j ++ [.told (some p.latest) (.failed cause)]) := by
  have hshown : shownIn (j ++ [.told (some p.latest) (.failed cause)]) = shownIn j := by
    simp [shownIn]
  refine h.speak hlatest here hrunning ?_ ?_
  · rw [hshown]
    exact h.urls
  · rw [hshown, hurl]
    exact h.last

/-- A turn keeps the previews and the journal in step. -/
theorem turn {es : List Note} (h : Fenced p j) (ht : Turn p q es) : Fenced q (j ++ es) := by
  cases ht with
  | quiet hlatest hurl hrunning =>
      rw [List.append_nil]
      exact h.rest hlatest hurl hrunning
  | starts hlatest hurl hrunning => exact h.commence hlatest hurl hrunning
  | forgets => exact h.forget
  | fails hlatest hurl here hrunning cause => exact h.fail hlatest hurl here hrunning cause
  | shows hlatest u old hurl here hrunning => exact h.display hlatest old hurl here hrunning

/-- Previews fit the journal of every run. -/
theorem journal (ms : List Move) : Fenced (({} : Preview).moved ms) (({} : Preview).journal ms) := by
  -- The journal of a run grows at its end, so the induction takes the last move off.
  induction ms using List.reverseRecOn with
  | nil => exact empty
  | append_singleton ms m ih =>
      rw [journal_snoc, moved_snoc]
      exact ih.turn (turn_move _ m)

end Fenced

/-- **Only the latest request speaks.**  In every succession of orders, ends of pauses and ends of
requests, withdrawn ones included and whatever they bring, observers are told something only by the
request that started last until then; the requests that speak do so in ascending order, so none of
them twice; and of two URLs shown one after the other, without the first being forgotten in between,
the second is another one. -/
theorem latest_speaks (ms : List Move) :
    let j := ({} : Preview).journal ms
    (∀ before speaker n after, j = before ++ .told speaker n :: after →
      ∃ id, speaker = some id ∧ id ∈ startedIn before ∧ ∀ k ∈ startedIn before, k ≤ id) ∧
    (speakersIn j).Pairwise (· < ·) ∧
    (shownIn j).IsChain Differs := by
  intro j
  have h := Fenced.journal ms
  exact ⟨fun before speaker n after hj => h.told before _ after hj speaker n rfl, h.order, h.urls⟩

/-- Two previews are asked for; the first request is withdrawn and brings a URL all the same. -/
example : speakersIn (({} : Preview).journal
    [.order .schedule, .pauseOver, .order .schedule, .pauseOver, .settle 1 (.url "old"),
      .settle 2 (.url "new")]) = [2] := rfl

end Retouch.Preview
