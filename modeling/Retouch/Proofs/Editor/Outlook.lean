/-
  Whether undo and redo find something.

  Both make the capture an entry before they look for one, and the questions asked beforehand look
  at the history as it is.  The one about undo counts the capture: it is answered rightly unless
  there is no room for entries, where the capture is dropped at once (`canUndo_iff`).  The one about
  redo does not: the entry that the capture becomes drops what was undone, so the answer is right
  exactly if there is no capture, or the capture asks for the same as the newest entry
  (`canRedo_iff`).  In a run in which every change is recorded it never does, and nothing can be
  redone as long as a capture waits.  Main result: `outlook_after`.
-/
import Retouch.Proofs.Editor.Entries

namespace Retouch

namespace History

variable {h : History}

/-! ## After the flush -/

/-- An entry that is there has room. -/
theorem Sound.limit_ne_zero (hs : h.Sound) (hpast : h.past ≠ []) : h.limit ≠ 0 := by
  have hfits := hs.fits
  have hlength := List.length_pos_of_ne_nil hpast
  omega

theorem past_ne_nil_of_repeats {s : State} (hsame : h.repeats s = true) : h.past ≠ [] := by
  intro hnil
  simp [repeats, hnil] at hsame

/-- A flush leaves something to undo exactly if there was an entry or a capture, and there is room
    for entries. -/
theorem past_flush_ne_nil_iff (hs : h.Sound) (hplain : ∀ s ∈ h.pending, s.Plain) :
    h.flush.1.past ≠ [] ↔ h.canUndo = true ∧ h.limit ≠ 0 := by
  cases hp : h.pending with
  | none =>
      rw [flush_fst_of_pending_none hp]
      have hcan : h.canUndo = true ↔ h.past ≠ [] := by simp [canUndo, hp]
      rw [hcan]
      exact ⟨fun hne => ⟨hne, hs.limit_ne_zero hne⟩, And.left⟩
  | some s =>
      have hcan : h.canUndo = true := by simp [canUndo, hp]
      rw [flush_fst, commit_of_pending_some hp]
      cases hsame : h.repeats s with
      | true =>
          have hne := past_ne_nil_of_repeats hsame
          rw [push_of_repeats (h := { h with pending := none }) (hplain s hp) hsame]
          exact ⟨fun _ => ⟨hcan, hs.limit_ne_zero hne⟩, fun _ => hne⟩
      | false =>
          rw [push_of_not_repeats (h := { h with pending := none }) (hplain s hp) hsame]
          simp [hcan]

/-- A flush leaves something to redo exactly if there was something and there is no capture that
    asks for anything but the newest entry. -/
theorem future_flush_ne_nil_iff (hplain : ∀ s ∈ h.pending, s.Plain) :
    h.flush.1.future ≠ [] ↔
      h.canRedo = true ∧ ∀ s, h.pending = some s → h.repeats s = true := by
  have hcan : h.canRedo = true ↔ h.future ≠ [] := by simp [canRedo]
  rw [hcan]
  cases hp : h.pending with
  | none =>
      rw [flush_fst_of_pending_none hp]
      simp
  | some s =>
      rw [flush_fst, Ne, future_commit_eq_nil_iff hp (hplain s hp), not_or]
      simp

/-- Undo gives a tree exactly if an entry is left after the flush. -/
theorem undo_isSome_iff (h : History) (current : State) :
    (h.undo current).1.isSome = true ↔ h.flush.1.past ≠ [] := by
  cases hpast : h.flush.1.past with
  | nil => simp [(undo_of_past_nil current hpast).1]
  | cons s past => simp [(undo_of_past_cons current hpast).1]

theorem redo_isSome_iff (h : History) (current : State) :
    (h.redo current).1.isSome = true ↔ h.flush.1.future ≠ [] := by
  cases hfuture : h.flush.1.future with
  | nil => simp [(redo_of_future_nil current hfuture).1]
  | cons s future => simp [(redo_of_future_cons current hfuture).1]

end History

namespace Editor

open Edit Editor.Core

variable {e : Editor}

/-! ## What undo and redo answer -/

/-- Going back or forward has a result, which says whether the history gave a tree. -/
theorem travel_result (f : History → State → Option State × History × List History.Effect)
    (e : Editor) :
    ((travel f).run e).result = .ok (f e.history e.root).1.isSome := by
  obtain ⟨b, hok, hcore⟩ := (travel_core f e).run_total rfl
  rw [hok]
  cases hfound : (f e.history e.root).1 with
  | none =>
      rw [hfound] at hcore
      rw [hcore.1]
      rfl
  | some tree =>
      rw [hfound] at hcore
      rw [hcore.1]
      rfl

/-- The room for entries is that of the settings in every run. -/
theorem limit_after (settings : Settings) (imagePath : String) (size : Size)
    (bounds : Option Size) (moves : List Move) :
    ((start settings imagePath size bounds).after moves).history.limit =
      settings.maxHistorySize.toNat := by
  induction moves using List.reverseRecOn with
  | nil => rfl
  | append_singleton moves m ih =>
      rw [after_snoc, ← ih]
      have hturn := turn_apply ((start settings imagePath size bounds).after moves) m
      cases hturn with
      | rests h => exact congrArg (History.limit ∘ Timeline.history) h
      | replaces hm h => exact congrArg History.limit h
      | opens st hst h | goes st hst h hroot =>
          exact (congrArg History.limit h).trans (Timeline.limit_step _ st)

/-- **What is said to be undone or redone is, unless a capture takes its place.**  Take an editor
    after any moves.  Undo and redo have a result.  Undo finds an entry exactly if the history says
    so and there is room for entries, so with room it says the truth.  Redo finds one exactly if the
    history says so and a capture that waits asks for the same as the newest entry.  Without a
    capture both answers are the truth.  If every change was recorded, and the base image had a
    name, redo finds nothing as long as a capture waits, whatever the history says. -/
theorem outlook_after (settings : Settings) (imagePath : String) (size : Size)
    (bounds : Option Size) (moves : List Move) :
    let first := start settings imagePath size bounds
    let e := first.after moves
    let h := e.history
    ∃ back forth, (undo.run e).result = .ok back ∧ (redo.run e).result = .ok forth ∧
      (back = true ↔ h.canUndo = true ∧ 0 < settings.maxHistorySize) ∧
      (forth = true ↔ h.canRedo = true ∧ ∀ s, h.pending = some s → h.repeats s = true) ∧
      (0 < settings.maxHistorySize → back = h.canUndo) ∧
      (h.pending = none → back = h.canUndo ∧ forth = h.canRedo) ∧
      ((∀ m ∈ moves, m.unrecorded = false) →
        (∀ n, (first.after (moves.take n)).imagePath ≠ "") →
        (forth = true ↔ h.canRedo = true ∧ h.pending = none)) := by
  intro first e h
  have hs : h.Sound := sound_after settings imagePath size bounds moves
  have hplain : ∀ s ∈ h.pending, s.Plain :=
    (regular_after settings imagePath size bounds moves).pending
  have hlimit : h.limit ≠ 0 ↔ 0 < settings.maxHistorySize := by
    have hlimit : h.limit = settings.maxHistorySize.toNat :=
      limit_after settings imagePath size bounds moves
    omega
  have hback : (h.undo e.root).1.isSome = true ↔
      h.canUndo = true ∧ 0 < settings.maxHistorySize := by
    rw [History.undo_isSome_iff, History.past_flush_ne_nil_iff hs hplain, hlimit]
  have hforth : (h.redo e.root).1.isSome = true ↔
      h.canRedo = true ∧ ∀ s, h.pending = some s → h.repeats s = true := by
    rw [History.redo_isSome_iff, History.future_flush_ne_nil_iff hplain]
  refine ⟨_, _, travel_result _ e, travel_result _ e, hback, hforth, fun hroom => ?_,
    fun hp => ⟨?_, ?_⟩, fun hrecorded hnamed => ?_⟩
  · exact Bool.eq_iff_iff.mpr (hback.trans ⟨And.left, fun hcan => ⟨hcan, hroom⟩⟩)
  · -- Without a capture, what can be undone is an entry, which has room.
    rw [Bool.eq_iff_iff, hback, ← hlimit]
    refine ⟨And.left, fun hcan => ⟨hcan, hs.limit_ne_zero fun hnil => ?_⟩⟩
    have hnothing : h.canUndo = false := by
      show (!h.past.isEmpty || h.pending.isSome) = false
      rw [show h.past = [] from hnil, hp]
      rfl
    rw [hnothing] at hcan
    cases hcan
  · rw [Bool.eq_iff_iff, hforth, hp]
    simp
  · rw [hforth]
    refine and_congr_right fun hcan => ⟨fun hrepeats => ?_, fun hp s hs => ?_⟩
    · -- The newest entry differs from the tree with which the changes in progress began.
      have ht := threaded_after settings imagePath size bounds hrecorded hnamed
      have hne : h.future ≠ [] := by
        intro hnil
        simp [History.canRedo, hnil] at hcan
      have hnewest : h.repeats (h.pending.getD e.root) = false := ht.newest hne
      cases hp : h.pending with
      | none => rfl
      | some s =>
          rw [hp, Option.getD_some, hrepeats s hp] at hnewest
          cases hnewest
    · rw [hp] at hs
      cases hs

/-- A third width that is given after the second was undone leaves the second to be redone as long
    as the capture waits. -/
theorem after_undoWidth_given :
    (start {} "base.png" ⟨100, 100⟩ none).after
        (undoWidth ++ [.command (giveWidth (.int 3) true)]) =
      sized {}
        { limit := 50, past := [baseOfWidth none], future := [baseOfWidth (some 2)],
          pending := some (baseOfWidth (some 1)) }
        (some 3) := by
  rw [after_snoc, after_undoWidth, apply_giveWidth]
  rfl

/-- The first width waits to be an entry, whatever the room for entries. -/
theorem after_giveWidth (s : Settings) :
    (start s "base.png" ⟨100, 100⟩ none).after [.command (giveWidth (.int 1) true)] =
      sized s { limit := s.maxHistorySize.toNat, pending := some (baseOfWidth none) } (some 1) :=
  apply_giveWidth s _ none 1

/-- Once a second width is undone and another one given, there is said to be something to redo, but
    redo finds nothing; before that it finds the second width.  Without room for entries, a first
    width is said to be there to undo, but undo finds nothing. -/
theorem outlook_after_undoWidth :
    let first := start {} "base.png" ⟨100, 100⟩ none
    let wider := first.after (undoWidth ++ [.command (giveWidth (.int 3) true)])
    let cramped := (start { maxHistorySize := 0 } "base.png" ⟨100, 100⟩ none).after
      [.command (giveWidth (.int 1) true)]
    (redo.run (first.after undoWidth)).result = .ok true ∧
      wider.history.canRedo = true ∧ (redo.run wider).result = .ok false ∧
      cramped.history.canUndo = true ∧ (undo.run cramped).result = .ok false := by
  have hbefore := outlook_after {} "base.png" ⟨100, 100⟩ none undoWidth
  have hwider := outlook_after {} "base.png" ⟨100, 100⟩ none
    (undoWidth ++ [.command (giveWidth (.int 3) true)])
  have hcramped := outlook_after { maxHistorySize := 0 } "base.png" ⟨100, 100⟩ none
    [.command (giveWidth (.int 1) true)]
  dsimp only at hbefore hwider hcramped ⊢
  rw [after_undoWidth] at hbefore ⊢
  rw [after_undoWidth_given] at hwider ⊢
  rw [after_giveWidth] at hcramped ⊢
  refine ⟨?_, rfl, ?_, rfl, ?_⟩
  · obtain ⟨back, forth, -, hredo, -, -, -, htruth, -⟩ := hbefore
    rw [hredo, (htruth rfl).2]
    rfl
  · obtain ⟨back, forth, -, hredo, -, hexact, -⟩ := hwider
    rw [hredo, Except.ok.injEq, ← Bool.not_eq_true, hexact]
    rintro ⟨-, hrepeats⟩
    have hnew : (baseOfWidth none).same (baseOfWidth (some 1)) = true := hrepeats _ rfl
    rw [same_baseOfWidth] at hnew
    cases hnew
  · obtain ⟨back, forth, hundo, -, hexact, -⟩ := hcramped
    rw [hundo, Except.ok.injEq, ← Bool.not_eq_true, hexact]
    rintro ⟨-, hroom⟩
    exact absurd hroom (by decide)

end Editor

end Retouch
