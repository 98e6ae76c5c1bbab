/-
  Undo and redo move a cursor.

  The entries to undo to, the current tree and the entries to redo to are one sequence of trees,
  the timeline.  Recording cuts off what lies after the cursor and may drop the oldest entry.  Undo
  and redo only move the cursor, once a capture that waits has become an entry.

  Neither direction loses a tree because both sides *together* never hold more than the limit
  (`Sound.fits`): an entry is only added to one side in place of all that is on the other, or of
  one taken off it.
-/
import Retouch.History.Basic
import Retouch.Proofs.State.Plain

namespace Retouch

namespace History

/-! ## What each operation leaves -/

/-- Adding an entry changes nothing, or it cuts off what was undone. -/
theorem push_cases (h : History) (s : State) :
    (h.push s).1 = h ∨
      (h.push s).1 =
        { h with past := (s.withoutVisualCrop :: h.past).take h.limit, future := [] } := by
  unfold push
  by_cases hsame : h.past.head?.any (·.same s.withoutVisualCrop) = true
  · left
    simp only [hsame, if_true]
  · right
    simp only [hsame]
    rfl

theorem commit_of_pending_none {h : History} (hp : h.pending = none) : h.commit = (h, []) := by
  simp only [commit, hp]

theorem flush_fst (h : History) : h.flush.1 = h.commit.1 := rfl

theorem flush_fst_of_pending_none {h : History} (hp : h.pending = none) : h.flush.1 = h := by
  rw [flush_fst, commit_of_pending_none hp]

@[simp] theorem push_limit (h : History) (s : State) : (h.push s).1.limit = h.limit := by
  rcases push_cases h s with heq | heq <;> rw [heq]

@[simp] theorem push_pending (h : History) (s : State) : (h.push s).1.pending = h.pending := by
  rcases push_cases h s with heq | heq <;> rw [heq]

@[simp] theorem commit_limit (h : History) : h.commit.1.limit = h.limit := by
  cases hp : h.pending with
  | none => rw [commit_of_pending_none hp]
  | some s =>
      simp only [commit, hp]
      exact push_limit _ s

/-- Once the changes in progress are an entry, there are none. -/
@[simp] theorem commit_pending (h : History) : h.commit.1.pending = none := by
  cases hp : h.pending with
  | none => rw [commit_of_pending_none hp, hp]
  | some s =>
      simp only [commit, hp]
      exact push_pending _ s

@[simp] theorem flush_limit (h : History) : h.flush.1.limit = h.limit := commit_limit h

@[simp] theorem checkpoint_limit (h : History) (current : State) :
    (h.checkpoint current).1.limit = h.limit :=
  (push_limit h.flush.1 current).trans (flush_limit h)

/-- Going back takes the newest entry and leaves the current tree to go forward to. -/
theorem undo_of_past_cons {h : History} {s : State} {past : List State} (current : State)
    (hpast : h.flush.1.past = s :: past) :
    (h.undo current).1 = some s ∧
      (h.undo current).2.1 =
        { h.flush.1 with
          past
          future := (current.withoutVisualCrop :: h.flush.1.future).take h.flush.1.limit } := by
  simp [undo, hpast]

theorem undo_of_past_nil {h : History} (current : State) (hpast : h.flush.1.past = []) :
    (h.undo current).1 = none ∧ (h.undo current).2.1 = h.flush.1 := by
  simp [undo, hpast]

/-- Going forward takes the next entry and leaves the current tree to go back to. -/
theorem redo_of_future_cons {h : History} {s : State} {future : List State} (current : State)
    (hfuture : h.flush.1.future = s :: future) :
    (h.redo current).1 = some s ∧
      (h.redo current).2.1 =
        { h.flush.1 with
          past := (current.withoutVisualCrop :: h.flush.1.past).take h.flush.1.limit
          future } := by
  simp [redo, hfuture]

theorem redo_of_future_nil {h : History} (current : State) (hfuture : h.flush.1.future = []) :
    (h.redo current).1 = none ∧ (h.redo current).2.1 = h.flush.1 := by
  simp [redo, hfuture]

@[simp] theorem undo_limit (h : History) (current : State) :
    (h.undo current).2.1.limit = h.limit := by
  cases hpast : h.flush.1.past with
  | nil => rw [(undo_of_past_nil current hpast).2, flush_limit]
  | cons s past =>
      rw [(undo_of_past_cons current hpast).2]
      exact flush_limit h

@[simp] theorem redo_limit (h : History) (current : State) :
    (h.redo current).2.1.limit = h.limit := by
  cases hfuture : h.flush.1.future with
  | nil => rw [(redo_of_future_nil current hfuture).2, flush_limit]
  | cons s future =>
      rw [(redo_of_future_cons current hfuture).2]
      exact flush_limit h

/-! ## What holds of every history -/

/-- What every operation keeps: both sides together are within the limit, and no entry says that
    its crop is being edited. -/
structure Sound (h : History) : Prop where
  fits : h.past.length + h.future.length ≤ h.limit
  plain : ∀ s ∈ h.past ++ h.future, s.Plain

namespace Sound

variable {h : History}

theorem plain_past (hs : h.Sound) {s : State} (hmem : s ∈ h.past) : s.Plain :=
  hs.plain s (List.mem_append_left _ hmem)

theorem plain_future (hs : h.Sound) {s : State} (hmem : s ∈ h.future) : s.Plain :=
  hs.plain s (List.mem_append_right _ hmem)

theorem empty (limit : Nat) : Sound { limit } :=
  ⟨Nat.zero_le _, fun _ hmem => absurd hmem List.not_mem_nil⟩

/-- Only the two sides and the limit matter. -/
theorem of_pending (hs : h.Sound) (pending : Option State) : Sound { h with pending } :=
  ⟨hs.fits, hs.plain⟩

theorem push (hs : h.Sound) (s : State) : (h.push s).1.Sound := by
  rcases push_cases h s with heq | heq
  · rw [heq]
    exact hs
  · rw [heq]
    refine ⟨?_, ?_⟩
    · show ((s.withoutVisualCrop :: h.past).take h.limit).length + 0 ≤ h.limit
      have hcut := List.length_take_le h.limit (s.withoutVisualCrop :: h.past)
      omega
    · intro t hmem
      have hmem : t ∈ (s.withoutVisualCrop :: h.past).take h.limit := by
        simpa using hmem
      rcases List.mem_cons.mp (List.mem_of_mem_take hmem) with heq | hpast
      · rw [heq]
        exact s.plain_withoutVisualCrop
      · exact hs.plain_past hpast

theorem commit (hs : h.Sound) : h.commit.1.Sound := by
  cases hp : h.pending with
  | none =>
      rw [commit_of_pending_none hp]
      exact hs
  | some s =>
      simp only [History.commit, hp]
      exact (hs.of_pending none).push s

theorem flush (hs : h.Sound) : h.flush.1.Sound := hs.commit

theorem record (hs : h.Sound) (current : State) : (h.record current).1.Sound := hs.of_pending _

theorem checkpoint (hs : h.Sound) (current : State) : (h.checkpoint current).1.Sound :=
  hs.flush.push current

/-- Where there is an entry to go back to, there is room for one to go forward to. -/
theorem take_future (hs : h.Sound) {s : State} {past : List State} (hpast : h.past = s :: past)
    (current : State) :
    (current :: h.future).take h.limit = current :: h.future := by
  have hfits := hs.fits
  rw [hpast] at hfits
  apply List.take_of_length_le
  simp only [List.length_cons] at hfits ⊢
  omega

/-- Where there is an entry to go forward to, there is room for one to go back to. -/
theorem take_past (hs : h.Sound) {s : State} {future : List State}
    (hfuture : h.future = s :: future) (current : State) :
    (current :: h.past).take h.limit = current :: h.past := by
  have hfits := hs.fits
  rw [hfuture] at hfits
  apply List.take_of_length_le
  simp only [List.length_cons] at hfits ⊢
  omega

/-- Going back drops no entry on the side it adds to. -/
theorem undo_eq (hs : h.Sound) {s : State} {past : List State} (hpast : h.flush.1.past = s :: past)
    (current : State) :
    (h.undo current).1 = some s ∧
      (h.undo current).2.1 =
        { h.flush.1 with past, future := current.withoutVisualCrop :: h.flush.1.future } := by
  obtain ⟨htree, hhistory⟩ := undo_of_past_cons current hpast
  rw [hs.flush.take_future hpast] at hhistory
  exact ⟨htree, hhistory⟩

/-- Going forward drops no entry on the side it adds to. -/
theorem redo_eq (hs : h.Sound) {s : State} {future : List State}
    (hfuture : h.flush.1.future = s :: future) (current : State) :
    (h.redo current).1 = some s ∧
      (h.redo current).2.1 =
        { h.flush.1 with past := current.withoutVisualCrop :: h.flush.1.past, future } := by
  obtain ⟨htree, hhistory⟩ := redo_of_future_cons current hfuture
  rw [hs.flush.take_past hfuture] at hhistory
  exact ⟨htree, hhistory⟩

theorem undo (hs : h.Sound) (current : State) : (h.undo current).2.1.Sound := by
  have hf := hs.flush
  cases hpast : h.flush.1.past with
  | nil =>
      rw [(undo_of_past_nil current hpast).2]
      exact hf
  | cons s past =>
      rw [(hs.undo_eq hpast current).2]
      refine ⟨?_, ?_⟩
      · have hfits := hf.fits
        rw [hpast] at hfits
        simp only [List.length_cons] at hfits ⊢
        omega
      · intro t hmem
        rcases List.mem_append.mp hmem with hmem | hmem
        · exact hf.plain_past (hpast ▸ List.mem_cons_of_mem s hmem)
        · rcases List.mem_cons.mp hmem with heq | hmem
          · rw [heq]
            exact current.plain_withoutVisualCrop
          · exact hf.plain_future hmem

theorem redo (hs : h.Sound) (current : State) : (h.redo current).2.1.Sound := by
  have hf := hs.flush
  cases hfuture : h.flush.1.future with
  | nil =>
      rw [(redo_of_future_nil current hfuture).2]
      exact hf
  | cons s future =>
      rw [(hs.redo_eq hfuture current).2]
      refine ⟨?_, ?_⟩
      · have hfits := hf.fits
        rw [hfuture] at hfits
        simp only [List.length_cons] at hfits ⊢
        omega
      · intro t hmem
        rcases List.mem_append.mp hmem with hmem | hmem
        · rcases List.mem_cons.mp hmem with heq | hmem
          · rw [heq]
            exact current.plain_withoutVisualCrop
          · exact hf.plain_past hmem
        · exact hf.plain_future (hfuture ▸ List.mem_cons_of_mem s hmem)

/-- Going forward undoes going back. -/
theorem redo_undo (hs : h.Sound) (hpending : h.pending = none) {current s : State}
    (hplain : current.Plain) (hs' : (h.undo current).1 = some s) :
    ((h.undo current).2.1.redo s).1 = some current ∧ ((h.undo current).2.1.redo s).2.1 = h := by
  have hflush := flush_fst_of_pending_none hpending
  cases hpast : h.flush.1.past with
  | nil =>
      rw [(undo_of_past_nil current hpast).1] at hs'
      cases hs'
  | cons t past =>
      obtain ⟨htree, hhistory⟩ := hs.undo_eq hpast current
      obtain rfl : t = s := by simpa [htree] using hs'
      rw [hflush] at hpast hhistory
      have hback := hs.undo current
      have hwaits : (h.undo current).2.1.pending = none := by rw [hhistory, hpending]
      have hnext : (h.undo current).2.1.flush.1.future = current :: h.future := by
        rw [flush_fst_of_pending_none hwaits, hhistory, hplain.withoutVisualCrop_eq]
      obtain ⟨hforth, hend⟩ := hback.redo_eq hnext t
      have ht : t.Plain := hs.plain_past (hpast ▸ List.mem_cons_self)
      rw [flush_fst_of_pending_none hwaits, hhistory, ht.withoutVisualCrop_eq, ← hpast] at hend
      exact ⟨hforth, by rw [hhistory]; exact hend⟩

/-- Going back undoes going forward. -/
theorem undo_redo (hs : h.Sound) (hpending : h.pending = none) {current s : State}
    (hplain : current.Plain) (hs' : (h.redo current).1 = some s) :
    ((h.redo current).2.1.undo s).1 = some current ∧ ((h.redo current).2.1.undo s).2.1 = h := by
  have hflush := flush_fst_of_pending_none hpending
  cases hfuture : h.flush.1.future with
  | nil =>
      rw [(redo_of_future_nil current hfuture).1] at hs'
      cases hs'
  | cons t future =>
      obtain ⟨htree, hhistory⟩ := hs.redo_eq hfuture current
      obtain rfl : t = s := by simpa [htree] using hs'
      rw [hflush] at hfuture hhistory
      have hforth := hs.redo current
      have hwaits : (h.redo current).2.1.pending = none := by rw [hhistory, hpending]
      have hlast : (h.redo current).2.1.flush.1.past = current :: h.past := by
        rw [flush_fst_of_pending_none hwaits, hhistory, hplain.withoutVisualCrop_eq]
      obtain ⟨hback, hend⟩ := hforth.undo_eq hlast t
      have ht : t.Plain := hs.plain_future (hfuture ▸ List.mem_cons_self)
      rw [flush_fst_of_pending_none hwaits, hhistory, ht.withoutVisualCrop_eq, ← hfuture] at hend
      exact ⟨hback, by rw [hhistory]; exact hend⟩

end Sound

end History

/-! ## The timeline -/

/-- The current tree and its history. -/
structure Timeline where
  current : State
  history : History

namespace Timeline

/-- What can happen to a history, and to the tree that it is the history of. -/
inductive Step where
  /-- Another tree takes the place of the current one. -/
  | replace (s : State)
  | record
  /-- The pause after the changes in progress ends. -/
  | pauseOver
  | flush
  | checkpoint
  | cancel
  | clear
  | undo
  | redo

/-- A tree without a history. -/
def start (current : State) (limit : Nat) : Timeline := ⟨current, { limit }⟩

/-- The tree that the history gives is the current one from then on. -/
def travel (t : Timeline) (outcome : Option State × History × List History.Effect) : Timeline :=
  ⟨outcome.1.getD t.current, outcome.2.1⟩

/-- One step. -/
def step (t : Timeline) : Step → Timeline
  | .replace s => { t with current := s }
  | .record => { t with history := (t.history.record t.current).1 }
  | .pauseOver => { t with history := t.history.commit.1 }
  | .flush => { t with history := t.history.flush.1 }
  | .checkpoint => { t with history := (t.history.checkpoint t.current).1 }
  | .cancel => { t with history := t.history.cancel.1 }
  | .clear => { t with history := t.history.clear.1 }
  | .undo => t.travel (t.history.undo t.current)
  | .redo => t.travel (t.history.redo t.current)

/-- Steps one after the other. -/
def run (t : Timeline) (steps : List Step) : Timeline := steps.foldl step t

/-- All trees of the timeline, oldest first. -/
def trees (t : Timeline) : List State :=
  t.history.past.reverse ++ [t.current] ++ t.history.future

theorem sound_step {t : Timeline} (hs : t.history.Sound) (st : Step) :
    (t.step st).history.Sound := by
  cases st with
  | replace s => exact hs
  | record => exact hs.record t.current
  | pauseOver => exact hs.commit
  | flush => exact hs.flush
  | checkpoint => exact hs.checkpoint t.current
  | cancel => exact hs
  | clear => exact History.Sound.empty t.history.limit
  | undo => exact hs.undo t.current
  | redo => exact hs.redo t.current

theorem sound_run {t : Timeline} (hs : t.history.Sound) (steps : List Step) :
    (t.run steps).history.Sound := by
  induction steps generalizing t with
  | nil => exact hs
  | cons st steps ih => exact ih (sound_step hs st)

theorem limit_step (t : Timeline) (st : Step) : (t.step st).history.limit = t.history.limit := by
  cases st with
  | replace s => rfl
  | record => rfl
  | pauseOver => exact History.commit_limit t.history
  | flush => exact History.flush_limit t.history
  | checkpoint => exact History.checkpoint_limit t.history t.current
  | cancel => rfl
  | clear => rfl
  | undo => exact History.undo_limit t.history t.current
  | redo => exact History.redo_limit t.history t.current

theorem limit_run (t : Timeline) (steps : List Step) :
    (t.run steps).history.limit = t.history.limit := by
  induction steps generalizing t with
  | nil => rfl
  | cons st steps ih => exact (ih (t.step st)).trans (limit_step t st)

theorem sound_run_start (current : State) (limit : Nat) (steps : List Step) :
    ((start current limit).run steps).history.Sound :=
  sound_run (History.Sound.empty limit) steps

/-- Going back moves the cursor and leaves the trees, unless changes are in progress. -/
theorem trees_step_undo {t : Timeline} (hs : t.history.Sound) (hpending : t.history.pending = none)
    (hplain : t.current.Plain) : (t.step .undo).trees = t.trees := by
  have hflush := History.flush_fst_of_pending_none hpending
  cases hpast : t.history.flush.1.past with
  | nil =>
      obtain ⟨htree, hhistory⟩ := History.undo_of_past_nil t.current hpast
      simp only [step, travel, trees, htree, hhistory, hflush, Option.getD_none]
  | cons s past =>
      obtain ⟨htree, hhistory⟩ := hs.undo_eq hpast t.current
      rw [hflush] at hpast
      simp only [step, travel, trees, htree, hhistory, hflush, hpast, Option.getD_some,
        hplain.withoutVisualCrop_eq, List.reverse_cons, List.append_assoc, List.cons_append,
        List.nil_append]

/-- Going forward moves the cursor and leaves the trees, unless changes are in progress. -/
theorem trees_step_redo {t : Timeline} (hs : t.history.Sound) (hpending : t.history.pending = none)
    (hplain : t.current.Plain) : (t.step .redo).trees = t.trees := by
  have hflush := History.flush_fst_of_pending_none hpending
  cases hfuture : t.history.flush.1.future with
  | nil =>
      obtain ⟨htree, hhistory⟩ := History.redo_of_future_nil t.current hfuture
      simp only [step, travel, trees, htree, hhistory, hflush, Option.getD_none]
  | cons s future =>
      obtain ⟨htree, hhistory⟩ := hs.redo_eq hfuture t.current
      rw [hflush] at hfuture
      simp only [step, travel, trees, htree, hhistory, hflush, hfuture, Option.getD_some,
        hplain.withoutVisualCrop_eq, List.reverse_cons, List.append_assoc, List.cons_append,
        List.nil_append]

/-- **Undo and redo only move a cursor.**  After any steps, both sides together are within the
    limit, so that neither direction drops an entry of the side it adds to.  When no changes are in
    progress, going back and forward again, or forward and back again, leads to the same tree and
    the same history, and neither changes the sequence of all trees. -/
theorem undo_redo_move_cursor (current : State) (limit : Nat) (steps : List Step) :
    let t := (start current limit).run steps
    let h := t.history
    h.past.length + h.future.length ≤ limit ∧
      (∀ tree s past, h.flush.1.past = s :: past →
        (h.undo tree).1 = some s ∧
          (h.undo tree).2.1 =
            { h.flush.1 with past, future := tree.withoutVisualCrop :: h.flush.1.future }) ∧
      (∀ tree s future, h.flush.1.future = s :: future →
        (h.redo tree).1 = some s ∧
          (h.redo tree).2.1 =
            { h.flush.1 with past := tree.withoutVisualCrop :: h.flush.1.past, future }) ∧
      (h.pending = none → t.current.Plain →
        (∀ s, (h.undo t.current).1 = some s →
          ((h.undo t.current).2.1.redo s).1 = some t.current ∧
            ((h.undo t.current).2.1.redo s).2.1 = h) ∧
        (∀ s, (h.redo t.current).1 = some s →
          ((h.redo t.current).2.1.undo s).1 = some t.current ∧
            ((h.redo t.current).2.1.undo s).2.1 = h) ∧
        (t.step .undo).trees = t.trees ∧ (t.step .redo).trees = t.trees) := by
  intro t h
  have hs : h.Sound := sound_run_start current limit steps
  have hlimit : h.limit = limit := limit_run (start current limit) steps
  refine ⟨?_, ?_, ?_, ?_⟩
  · rw [← hlimit]
    exact hs.fits
  · intro tree s past hpast
    exact hs.undo_eq hpast tree
  · intro tree s future hfuture
    exact hs.redo_eq hfuture tree
  · intro hpending hplain
    refine ⟨?_, ?_, ?_, ?_⟩
    · intro s hback
      exact hs.redo_undo hpending hplain hback
    · intro s hforth
      exact hs.undo_redo hpending hplain hforth
    · exact trees_step_undo hs hpending hplain
    · exact trees_step_redo hs hpending hplain

/-- A tree that asks for a width. -/
def ofWidth (width : Int) : State := ⟨{ width := some width }, none⟩

/-- With a tree on either side of the current one, going back and forward, and forward and back,
    leads to the current one again. -/
theorem undo_redo_between_widths :
    let t :=
      (start (ofWidth 0) 2).run
        [.record, .replace (ofWidth 1), .pauseOver, .record, .replace (ofWidth 2), .undo]
    (t.history.undo (ofWidth 3)).2.1.future = [ofWidth 3, ofWidth 2] ∧
      (t.history.redo (ofWidth 3)).2.1.past = [ofWidth 3, ofWidth 0] ∧
      ((t.history.undo t.current).2.1.redo (ofWidth 0)).1 = some (ofWidth 1) ∧
      ((t.history.redo t.current).2.1.undo (ofWidth 2)).1 = some (ofWidth 1) := by
  intro t
  obtain ⟨-, hundo, hredo, hcursor⟩ :=
    undo_redo_move_cursor (ofWidth 0) 2
      [.record, .replace (ofWidth 1), .pauseOver, .record, .replace (ofWidth 2), .undo]
  obtain ⟨hback, hforth, -, -⟩ := hcursor rfl rfl
  refine ⟨?_, ?_, (hback (ofWidth 0) rfl).1, (hforth (ofWidth 2) rfl).1⟩
  · exact congrArg History.future (hundo (ofWidth 3) (ofWidth 0) [] rfl).2
  · exact congrArg History.past (hredo (ofWidth 3) (ofWidth 2) [] rfl).2

/-- The flush at the beginning of going back adds an entry, which may take the place of the oldest
    one: with room for one entry, the empty tree is nowhere afterwards. -/
theorem undo_of_pending_drops_oldest :
    let t :=
      (start .empty 1).run [.checkpoint, .replace (ofWidth 1), .record, .replace (ofWidth 2)]
    State.empty ∈ t.history.past ∧ State.empty ∉ (t.step .undo).trees := by
  intro t
  have htrees : (t.step .undo).trees = [ofWidth 1, ofWidth 2] := rfl
  refine ⟨List.mem_singleton.mpr rfl, ?_⟩
  rw [htrees]
  simp [State.empty, ofWidth]

end Timeline

end Retouch
