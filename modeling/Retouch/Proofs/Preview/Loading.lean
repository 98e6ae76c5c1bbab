/-
  When a preview is loading.

  The mark goes on when a preview is asked for and none waits yet, and from then on until a move
  clears it: the display is reported, or the latest request fails or brings the URL that is shown
  already (`loading_iff_litSince`).  Requests are told apart by their numbers, and a number is taken when
  the pause ends, not when the preview is asked for.  So a request that ends while a later preview
  is under way clears nothing, but while the later one still waits for its pause the mark goes off
  (`loading_until_cleared`).
-/
import Mathlib.Data.List.Induction
import Retouch.Proofs.Preview.Voice

namespace Retouch.Preview

/-! ## What a move does to the mark -/

/-- Whether an outcome leaves nothing to display. -/
def Vain (p : Preview) : Outcome → Prop
  | .failed _ => True
  | .url u => p.lastUrl = some u
  | .withdrawn => False

/-- Whether a move switches the mark off. -/
def Clears (p : Preview) (m : Move) : Prop :=
  m = .order .notifyLoaded ∨
    ∃ outcome, m = .settle p.latest outcome ∧ p.latest ∈ p.running ∧ p.Vain outcome

/-- Whether a move switches the mark on. -/
def Lights (p : Preview) (m : Move) : Prop := m = .order .schedule ∧ p.scheduled = false

/-- What becomes of the mark in a move, and what observers hear of it. -/
inductive Switch (p : Preview) (m : Move) (q : Preview) (es : List Effect) : Prop where
  | on (lights : p.Lights m) (mark : q.loading = true) (silent : .notice (.loading false) ∉ es)
  | off (clears : p.Clears m) (mark : q.loading = false) (heard : .notice (.loading false) ∈ es)
  | kept (dark : ¬ p.Lights m) (lasting : ¬ p.Clears m) (mark : q.loading = p.loading)
      (silent : .notice (.loading false) ∉ es)

theorem not_lights_of_clears {p : Preview} {m : Move} (h : p.Clears m) : ¬ p.Lights m := by
  rintro ⟨rfl, -⟩
  rcases h with h | ⟨_, h, -⟩
  · cases h
  · cases h

theorem clears_settle {p : Preview} {id : Nat} {outcome : Outcome} :
    p.Clears (.settle id outcome) ↔ id = p.latest ∧ id ∈ p.running ∧ p.Vain outcome := by
  constructor
  · rintro (h | ⟨_, h, hrunning, hvain⟩)
    · cases h
    · cases h
      exact ⟨rfl, hrunning, hvain⟩
  · rintro ⟨rfl, hrunning, hvain⟩
    exact .inr ⟨outcome, rfl, hrunning, hvain⟩

theorem not_clears_order {p : Preview} {o : Order} (h : o ≠ .notifyLoaded) :
    ¬ p.Clears (.order o) := by
  rintro (heq | ⟨_, heq, -⟩)
  · cases heq
    exact h rfl
  · cases heq

theorem not_lights_order {p : Preview} {o : Order} (h : o ≠ .schedule) :
    ¬ p.Lights (.order o) := by
  rintro ⟨heq, -⟩
  cases heq
  exact h rfl

theorem not_lights_settle {p : Preview} {id : Nat} {outcome : Outcome} :
    ¬ p.Lights (.settle id outcome) := by
  rintro ⟨heq, -⟩
  cases heq

/-- Withdrawing a request tells observers nothing. -/
theorem silent_withdrawCurrent (p : Preview) (n : Notice) : .notice n ∉ p.withdrawCurrent := by
  intro h
  obtain ⟨id, heq⟩ := eq_withdraw_of_mem h
  cases heq

theorem silent_pauseOver (p : Preview) : .notice (.loading false) ∉ p.pauseOver.2 := by
  intro h
  rcases List.mem_append.mp h with h | h
  · exact p.silent_withdrawCurrent _ h
  · cases List.mem_singleton.mp h

theorem switch_settle (p : Preview) (id : Nat) (outcome : Outcome) :
    Switch p (.settle id outcome) (p.settle id outcome).1 (p.settle id outcome).2 := by
  by_cases hclears : p.Clears (.settle id outcome)
  · refine .off hclears ?_ ?_
    all_goals
      obtain ⟨rfl, hrunning, hvain⟩ := clears_settle.mp hclears
      cases outcome with
      | failed cause => simp [settle, hrunning, setLoading]
      | url u =>
          have hlast : p.lastUrl = some u := hvain
          simp [settle, hrunning, hlast, setLoading]
      | withdrawn => exact hvain.elim
  -- Otherwise the request has ended, or a later one started, or it brings a URL to display.
  · have hno := mt clears_settle.mpr hclears
    refine .kept not_lights_settle hclears ?_ ?_
    all_goals
      by_cases hrunning : id ∈ p.running
      · by_cases hid : id = p.latest
        · subst hid
          have hvain : ¬ p.Vain outcome := fun h => hno ⟨rfl, hrunning, h⟩
          cases outcome with
          | failed cause => exact absurd trivial hvain
          | url u =>
              have hlast : p.lastUrl ≠ some u := hvain
              simp [settle, hrunning, hlast]
          | withdrawn => simp [settle, hrunning]
        · cases outcome <;> simp [settle, hrunning, hid]
      · simp [settle, hrunning]

theorem switch_move (p : Preview) (m : Move) : Switch p m (p.move m).1 (p.move m).2 := by
  cases m with
  | pauseOver =>
      refine .kept ?_ ?_ rfl p.silent_pauseOver
      · rintro ⟨h, -⟩
        cases h
      · rintro (h | ⟨_, h, -⟩)
        · cases h
        · cases h
  | settle id outcome => exact p.switch_settle id outcome
  | order o =>
      cases o with
      | schedule =>
          have hlasting : ¬ p.Clears (.order .schedule) := not_clears_order (by decide)
          show Switch p _ p.schedule.1 p.schedule.2
          unfold schedule
          split
          · rename_i hscheduled
            refine .kept (fun h => ?_) hlasting rfl (by simp)
            rw [h.2] at hscheduled
            cases hscheduled
          · rename_i hscheduled
            exact .on ⟨rfl, Bool.eq_false_iff.mpr hscheduled⟩ rfl (by simp [setLoading])
      | flush =>
          have hdark : ¬ p.Lights (.order .flush) := not_lights_order (by decide)
          have hlasting : ¬ p.Clears (.order .flush) := not_clears_order (by decide)
          show Switch p _ p.flush.1 p.flush.2
          unfold flush
          split
          · refine .kept hdark hlasting rfl fun h => ?_
            rcases List.mem_cons.mp h with h | h
            · cases h
            · exact p.silent_pauseOver h
          · exact .kept hdark hlasting rfl List.not_mem_nil
      | reset =>
          exact .kept (not_lights_order (by decide)) (not_clears_order (by decide)) rfl
            List.not_mem_nil
      | cancel =>
          refine .kept (not_lights_order (by decide)) (not_clears_order (by decide)) rfl fun h => ?_
          have h : Effect.notice (.loading false) ∈
            Effect.stopWindow :: p.withdrawCurrent ++ [Effect.dropWatchers] := h
          rcases List.mem_append.mp h with h | h
          · rcases List.mem_cons.mp h with h | h
            · cases h
            · exact p.silent_withdrawCurrent _ h
          · cases List.mem_singleton.mp h
      | notifyLoaded => exact .off (.inl rfl) rfl (List.mem_cons_self ..)

theorem loading_move (p : Preview) (m : Move) :
    (p.move m).1.loading = true ↔ p.Lights m ∨ (p.loading = true ∧ ¬ p.Clears m) := by
  cases p.switch_move m with
  | on lights mark => exact iff_of_true mark (.inl lights)
  | off clears mark =>
      rw [mark]
      refine iff_of_false Bool.false_ne_true ?_
      rintro (h | ⟨-, h⟩)
      · exact not_lights_of_clears clears h
      · exact h clears
  | kept dark lasting mark =>
      rw [mark]
      exact ⟨fun h => .inr ⟨h, lasting⟩, fun h => (h.resolve_left dark).1⟩

/-- Observers hear that the mark is off exactly from the moves that switch it off. -/
theorem heard_move (p : Preview) (m : Move) :
    .notice (.loading false) ∈ (p.move m).2 ↔ p.Clears m := by
  cases p.switch_move m with
  | on lights mark silent => exact iff_of_false silent fun h => not_lights_of_clears h lights
  | off clears mark heard => exact iff_of_true heard clears
  | kept dark lasting mark silent => exact iff_of_false silent lasting

/-- A request that clears nothing leaves the mark as it is. -/
theorem loading_settle {p : Preview} {id : Nat} {outcome : Outcome}
    (h : ¬ p.Clears (.settle id outcome)) : (p.settle id outcome).1.loading = p.loading := by
  cases p.switch_settle id outcome with
  | on lights => exact absurd lights not_lights_settle
  | off clears => exact absurd clears h
  | kept dark lasting mark => exact mark

/-! ## What a run does to the mark -/

/-- Whether the mark was switched on in a run and not off since. -/
def LitSince (p : Preview) (ms : List Move) : Prop :=
  ∃ before after, ms = before ++ .order .schedule :: after ∧
    (p.moved before).scheduled = false ∧
    ∀ bs m as, after = bs ++ m :: as →
      ¬ (p.moved (before ++ .order .schedule :: bs)).Clears m

theorem litSince_snoc {p : Preview} {ms : List Move} {m : Move} :
    p.LitSince (ms ++ [m]) ↔
      (p.moved ms).Lights m ∨ (p.LitSince ms ∧ ¬ (p.moved ms).Clears m) := by
  constructor
  · rintro ⟨before, after, hms, hscheduled, hafter⟩
    rcases List.eq_nil_or_concat after with rfl | ⟨init, last, rfl⟩
    · obtain ⟨rfl, hlast⟩ := List.append_inj' hms rfl
      exact .inl ⟨List.singleton_inj.mp hlast, hscheduled⟩
    · have hms : ms ++ [m] = (before ++ .order .schedule :: init) ++ [last] := by simpa using hms
      obtain ⟨rfl, hlast⟩ := List.append_inj' hms rfl
      cases hlast
      rw [List.concat_eq_append, forall_cut_snoc (P := fun bs m =>
        ¬ (p.moved (before ++ .order .schedule :: bs)).Clears m)] at hafter
      exact .inr ⟨⟨before, init, rfl, hscheduled, hafter.1⟩, hafter.2⟩
  · rintro (⟨rfl, hscheduled⟩ | ⟨⟨before, after, rfl, hscheduled, hafter⟩, hlasting⟩)
    · exact ⟨ms, [], rfl, hscheduled, fun bs m as h => by simp at h⟩
    · refine ⟨before, after ++ [m], by simp, hscheduled, ?_⟩
      exact (forall_cut_snoc (P := fun bs m =>
        ¬ (p.moved (before ++ .order .schedule :: bs)).Clears m)).mpr ⟨hafter, hlasting⟩

theorem loading_iff_litSince (ms : List Move) :
    (({} : Preview).moved ms).loading = true ↔ ({} : Preview).LitSince ms := by
  induction ms using List.reverseRecOn with
  | nil =>
      refine iff_of_false (fun h => by cases h) ?_
      rintro ⟨before, after, h, -⟩
      simp at h
  | append_singleton ms m ih => rw [moved_snoc, loading_move, litSince_snoc, ih]

/-- Whether a preview that was asked for when a request had started already is still to come: it
waits for its pause, or its own request is under way. -/
def LaterPending (ms : List Move) (id : Nat) : Prop :=
  ∃ before after, ms = before ++ .order .schedule :: after ∧
    let p : Preview := ({} : Preview).moved before
    let q : Preview := ({} : Preview).moved ms
    id ≤ p.latest ∧ ((q.latest = p.latest ∧ q.scheduled = true) ∨ p.latest + 1 ∈ q.running)

/-- A later preview that is still to come either has started, or it waits for its pause. -/
theorem LaterPending.latest {ms : List Move} {id : Nat} (h : LaterPending ms id) :
    let p : Preview := ({} : Preview).moved ms
    id < p.latest ∨ (id = p.latest ∧ p.scheduled = true) := by
  obtain ⟨before, after, rfl, hid, hpending⟩ := h
  intro p
  rcases hpending with ⟨hlatest, hscheduled⟩ | hrunning
  · rcases Nat.lt_or_eq_of_le hid with hid | hid
    · exact .inl (Nat.lt_of_lt_of_eq hid hlatest.symm)
    · exact .inr ⟨hid.trans hlatest.symm, hscheduled⟩
  · have hfenced := Fenced.journal (before ++ .order .schedule :: after)
    have hstarted : _ ≤ p.latest := hfenced.started _ (hfenced.running _ hrunning)
    exact .inl (by omega)

/-- **When a preview is loading.**  In every succession of orders, ends of pauses and ends of
requests, the mark is on exactly if it was switched on, by asking for a preview while none waits,
and no move cleared it since; and observers hear that it is off exactly from the moves that clear
it.  A request that ends while a preview that was asked for later is still to come leaves the mark
and the observers alone if a newer request has started; until the pause of the later preview is
over, it switches the mark off if it fails or brings the URL that is shown. -/
theorem loading_until_cleared (ms : List Move) :
    let p : Preview := ({} : Preview).moved ms
    (p.loading = true ↔ ∃ before after, ms = before ++ .order .schedule :: after ∧
      (({} : Preview).moved before).scheduled = false ∧
      ∀ bs m as, after = bs ++ m :: as →
        ¬ (({} : Preview).moved (before ++ .order .schedule :: bs)).Clears m) ∧
    (∀ m, .notice (.loading false) ∈ (p.move m).2 ↔ p.Clears m) ∧
    ∀ id, LaterPending ms id →
      (id < p.latest ∧ ∀ outcome, .notice (.loading false) ∉ (p.settle id outcome).2 ∧
        (p.settle id outcome).1.loading = p.loading) ∨
      (id = p.latest ∧ p.scheduled = true ∧ ∀ outcome,
        (.notice (.loading false) ∈ (p.settle id outcome).2 ↔ id ∈ p.running ∧ p.Vain outcome) ∧
        ((p.settle id outcome).1.loading = true ↔
          p.loading = true ∧ ¬ (id ∈ p.running ∧ p.Vain outcome))) := by
  intro p
  refine ⟨loading_iff_litSince ms, p.heard_move, fun id hlater => ?_⟩
  -- Either the later preview took a number already, or it still waits and the request has the last.
  rcases hlater.latest with hid | ⟨hid, hscheduled⟩
  · refine .inl ⟨hid, fun outcome => ?_⟩
    have hlasting : ¬ p.Clears (.settle id outcome) := fun h =>
      Nat.ne_of_lt hid (clears_settle.mp h).1
    exact ⟨mt (p.heard_move (.settle id outcome)).mp hlasting, loading_settle hlasting⟩
  · refine .inr ⟨hid, hscheduled, fun outcome => ?_⟩
    have hclears : p.Clears (.settle id outcome) ↔ id ∈ p.running ∧ p.Vain outcome :=
      clears_settle.trans (and_iff_right hid)
    refine ⟨(p.heard_move (.settle id outcome)).trans hclears, ?_⟩
    rw [← hclears]
    exact (p.loading_move (.settle id outcome)).trans (or_iff_right not_lights_settle)

/-- A second preview waits for its pause when the request of the first one fails: nothing is loading
any more. -/
theorem loading_until_cleared_gap :
    let ms : List Move := [.order .schedule, .pauseOver, .order .schedule]
    let p : Preview := ({} : Preview).moved ms
    LaterPending ms 1 ∧ p.loading = true ∧ p.scheduled = true ∧
      .notice (.loading false) ∈ (p.settle 1 (.failed (.preview "gone"))).2 ∧
      ¬ (p.settle 1 (.failed (.preview "gone"))).1.loading = true := by
  intro ms p
  have hlater : LaterPending ms 1 :=
    ⟨[.order .schedule, .pauseOver], [], rfl, Nat.le_refl 1, .inl ⟨rfl, rfl⟩⟩
  have hvain : 1 ∈ p.running ∧ p.Vain (.failed (.preview "gone")) := ⟨by decide, trivial⟩
  obtain ⟨-, -, h⟩ := loading_until_cleared ms
  rcases h 1 hlater with ⟨hlt, -⟩ | ⟨-, hscheduled, h⟩
  · exact absurd hlt (by decide)
  · obtain ⟨hheard, hmark⟩ := h (.failed (.preview "gone"))
    exact ⟨hlater, rfl, hscheduled, hheard.mpr hvain, fun hon => (hmark.mp hon).2 hvain⟩

end Retouch.Preview
