/-
  The steps of a run, and what the history remembers of them.

  A run of recorded operations falls into steps.  Changes that join others are one step until the
  pause after them ends, the context is switched, or an operation that is recorded at once comes;
  such an operation is a step of its own.  The journal of a run only looks at the moves and at the
  tree before each: it notes with which tree every step began.

  As long as every step changed the tree, the history holds exactly the newest of those trees
  (`Kept`): debounced and immediate captures alike, across contexts, up to its limit.  A step that
  leaves the tree as it was is not in the history, but then two neighbours in the journal ask for
  the same (`Stalled`).
-/
import Retouch.Proofs.Editor.Context
import Retouch.Proofs.History.Cursor

namespace Retouch.Editor

open Edit Editor.Core

/-! ## Recorded moves -/

/-- How a move counts in a run that is recorded. -/
inductive Move.Kind where
  /-- The change joins those before it. -/
  | joins
  /-- The operation is recorded at once. -/
  | alone
  | switches
  | pauses
  deriving DecidableEq

/-- The kind of a move, if it belongs in a run that is recorded. -/
def Move.kind? : Move → Option Move.Kind
  | .command (.update _ true _) | .command (.updateLayer _ _ true) | .command (.reorder _) =>
    some .joins
  | .command (.addLayer _) | .command (.removeLayer _) | .command (.duplicateLayer _)
  | .command .resetParams | .command (.importTemplate _) => some .alone
  | .command (.replaceImage imagePath _ _) => if imagePath = "" then none else some .alone
  | .command (.switchContext _) => some .switches
  | .pauseOver => some .pauses
  | _ => none

/-- Whether a command has a result. -/
def succeeds (e : Editor) : Move → Bool
  | .command c => ((carryOut c).run e).result.isOk
  | _ => true

/-- Whether a run is made of recorded operations that succeed, switches of the context, which may
    fail, and pauses. -/
def Recorded (e : Editor) : List Move → Prop
  | [] => True
  | m :: moves =>
    (m.kind?.isSome ∧ (m.kind? ≠ some .switches → e.succeeds m)) ∧ Recorded (e.apply m) moves

/-- Whether a switch leads to another context. -/
def leaves (e : Editor) : Move → Bool
  | .command (.switchContext target) => (e.destination target).toOption.join.isSome
  | _ => false

/-! ## Journals -/

/-- With which trees the steps of a run began. -/
structure Journal where
  /-- Those of the steps that ended, newest first. -/
  starts : List State := []
  /-- That of the step in progress. -/
  begun : Option State := none

namespace Journal

/-- The trees with which all steps began, newest first. -/
def line (j : Journal) : List State := j.begun.toList ++ j.starts

/-- The journal when the step in progress ends. -/
def close (j : Journal) : Journal := { starts := j.line }

/-- Notes a move. -/
def note (j : Journal) (e : Editor) (m : Move) : Journal :=
  match m.kind? with
  | some .joins => { j with begun := some (j.begun.getD e.root) }
  | some .alone => { starts := e.root :: j.line }
  | some .pauses => j.close
  | some .switches => if e.leaves m then j.close else j
  | none => j

/-- The journal of a run, going on from a journal. -/
def continued (j : Journal) (e : Editor) : List Move → Journal
  | [] => j
  | m :: moves => (j.note e m).continued (e.apply m) moves

/-- The journal of a run. -/
def ofRun (e : Editor) (moves : List Move) : Journal := continued {} e moves

end Journal

/-- Whether neighbours among trees, newest first, ask for different things. -/
def Differ : List State → Prop
  | newer :: older :: rest => older.same newer = false ∧ Differ (older :: rest)
  | _ => True

theorem Differ.tail {s : State} {ss : List State} (h : Differ (s :: ss)) : Differ ss := by
  cases ss with
  | nil => exact trivial
  | cons t ss => exact h.2

theorem not_differ_of_twice {s : State} {ss : List State} : ¬ Differ (s :: s :: ss) := by
  intro h
  have hself := s.same_refl
  rw [h.1] at hself
  cases hself

/-! ## What the history remembers -/

end Retouch.Editor

namespace Retouch

/-- Whether a tree is as the history stores it: it names an image, which is not without name, and
    does not say that its crop is being edited. -/
structure State.Stored (s : State) : Prop where
  named : ∃ imagePath size, imagePath ≠ "" ∧ s.params.imagePath = some imagePath ∧
    s.params.originalDimensions = some size
  plain : s.Plain

namespace History

/-- A tree that differs from the newest entry becomes one. -/
theorem push_of_differ {h : History} {s : State} {starts : List State}
    (hpast : h.past = starts.take h.limit) (hdiffer : Editor.Differ (s :: starts))
    (hplain : s.Plain) :
    (h.push s).1 = { h with past := (s :: starts).take h.limit, future := [] } := by
  have hnew : h.past.head?.any (·.same s) = false := by
    rw [hpast]
    cases hl : h.limit with
    | zero => rfl
    | succ n =>
        cases starts with
        | nil => rfl
        | cons t starts => exact hdiffer.1
  have hcut : (s :: starts.take h.limit).take h.limit = (s :: starts).take h.limit := by
    cases h.limit with
    | zero => rfl
    | succ n => simp [List.take_take]
  unfold push
  simp only [hplain.withoutVisualCrop_eq, hnew, Bool.false_eq_true, if_false]
  rw [hpast, hcut]

end History

end Retouch

namespace Retouch.Editor

open Edit Editor.Core

variable {limit : Nat} {j : Journal} {c c' : Core} {e : Editor}

theorem Core.Grounded.stored (hg : c.Grounded) : c.root.Stored :=
  ⟨⟨c.imagePath, c.size, hg.nonempty, hg.image, hg.size⟩, hg.plain⟩

/-- Whether the history holds the newest trees of a journal.  If the step in progress was not
    recorded it has not changed the tree. -/
structure Kept (limit : Nat) (j : Journal) (c : Core) : Prop where
  past : c.history.past = j.starts.take limit
  future : c.history.future = []
  limit : c.history.limit = limit
  pending : c.history.pending = j.begun ∨ c.history.pending = none ∧ j.begun = some c.root

/-- Whether the last step ended with the tree that it began with. -/
def Stalled (j : Journal) (c : Core) : Prop := ∃ starts, j = { starts := c.root :: starts }

theorem Kept.sound (hk : Kept limit j c) (hstored : ∀ s ∈ j.line, s.Stored) :
    c.history.Sound := by
  refine ⟨?_, ?_⟩
  · rw [hk.past, hk.future, hk.limit]
    have hcut := List.length_take_le limit j.starts
    simp only [List.length_nil]
    omega
  · intro s hmem
    rw [hk.past, hk.future, List.append_nil] at hmem
    exact (hstored s (List.mem_append_right _ (List.mem_of_mem_take hmem))).plain

/-- A flush makes the step in progress an entry, unless it has not changed the tree. -/
theorem Kept.flush (hk : Kept limit j c) (hdiffer : Differ j.line)
    (hstored : ∀ s ∈ j.line, s.Stored) :
    c.history.flush.1 = { past := j.line.take limit, limit } ∨ j.begun = some c.root := by
  obtain ⟨hpast, hfuture, hlimit, hpending⟩ := hk
  rcases hpending with hpending | ⟨-, hbegun⟩
  · left
    rw [History.flush_fst]
    generalize c.history = h at hpast hfuture hlimit hpending ⊢
    obtain ⟨past, future, pending, limit'⟩ := h
    simp only at hpast hfuture hlimit hpending
    subst hlimit hpending hfuture
    cases hb : j.begun with
    | none => simp [History.commit, Journal.line, hb, hpast]
    | some s =>
        have hline : j.line = s :: j.starts := by simp [Journal.line, hb]
        rw [hline] at hdiffer hstored ⊢
        simp only [History.commit]
        rw [History.push_of_differ hpast hdiffer (hstored s List.mem_cons_self).plain]
  · exact Or.inr hbegun

/-- A checkpoint also makes the tree an entry. -/
theorem Kept.checkpoint (hk : Kept limit j c) (hdiffer : Differ (c.root :: j.line))
    (hstored : ∀ s ∈ j.line, s.Stored) (hplain : c.root.Plain) :
    (c.history.checkpoint c.root).1 = { past := (c.root :: j.line).take limit, limit } := by
  rcases hk.flush hdiffer.tail hstored with hflush | hbegun
  · show (c.history.flush.1.push c.root).1 = _
    rw [hflush, History.push_of_differ rfl hdiffer hplain]
  · have hline : j.line = c.root :: j.starts := by simp [Journal.line, hbegun]
    rw [hline] at hdiffer
    exact absurd hdiffer not_differ_of_twice

/-- What holds of a journal and an editor all along a run. -/
structure Follows (limit : Nat) (j : Journal) (c : Core) : Prop where
  grounded : c.Grounded
  stored : ∀ s ∈ j.line, s.Stored
  kept : Differ j.line → Kept limit j c ∨ Stalled j c

/-- When a step ends, by a pause or a switch, it is in the history or has changed nothing. -/
theorem Follows.close (hf : Follows limit j c) (hg : c'.Grounded) (hroot : c'.root = c.root)
    (hhistory : c'.history = c.history.flush.1) : Follows limit j.close c' := by
  refine ⟨hg, hf.stored, fun hdiffer => ?_⟩
  rcases hf.kept hdiffer with hk | ⟨starts, rfl⟩
  · rcases hk.flush hdiffer hf.stored with hflush | hbegun
    · left
      rw [hflush] at hhistory
      exact ⟨by rw [hhistory]; rfl, by rw [hhistory], by rw [hhistory], Or.inl (by rw [hhistory]; rfl)⟩
    · right
      refine ⟨j.starts, ?_⟩
      simp [Journal.close, Journal.line, hbegun, hroot]
  · right
    exact ⟨starts, by rw [hroot]; rfl⟩

/-- An operation that is recorded at once is a step, or it has changed nothing. -/
theorem Follows.alone (hf : Follows limit j c) (hg : c'.Grounded)
    (h : c' = c ∨ c'.history = (c.history.checkpoint c.root).1) :
    Follows limit { starts := c.root :: j.line } c' := by
  refine ⟨hg, ?_, fun hdiffer => ?_⟩
  · intro s hmem
    rcases List.mem_cons.mp hmem with rfl | hmem
    · exact hf.grounded.stored
    · exact hf.stored s hmem
  · rcases hf.kept hdiffer.tail with hk | ⟨starts, rfl⟩
    · rcases h with rfl | hhistory
      · -- The operation found nothing to do, so the step ends with the tree that it began with.
        exact Or.inr ⟨j.line, rfl⟩
      · left
        rw [hk.checkpoint hdiffer hf.stored hf.grounded.plain] at hhistory
        exact ⟨by rw [hhistory], by rw [hhistory], by rw [hhistory], Or.inl (by rw [hhistory])⟩
    · exact absurd hdiffer not_differ_of_twice

/-- A change that joins others begins a step, or goes on with one. -/
theorem Follows.joins (hf : Follows limit j c) (hg : c'.Grounded)
    (h : c' = c ∨ c'.history = (c.history.record c.root).1) :
    Follows limit { j with begun := some (j.begun.getD c.root) } c' := by
  have hline : ∀ s ∈ Journal.line { j with begun := some (j.begun.getD c.root) },
      s = c.root ∨ s ∈ j.line := by
    intro s hmem
    cases hb : j.begun with
    | none => simpa [Journal.line, hb] using hmem
    | some b =>
        right
        simpa [Journal.line, hb] using hmem
  refine ⟨hg, fun s hmem => ?_, fun hdiffer => ?_⟩
  · rcases hline s hmem with rfl | hmem
    · exact hf.grounded.stored
    · exact hf.stored s hmem
  · have hbefore : Differ j.line := by
      cases hb : j.begun with
      | none =>
          have hline : Differ (c.root :: j.starts) := by simpa [Journal.line, hb] using hdiffer
          simpa [Journal.line, hb] using hline.tail
      | some b => simpa [Journal.line, hb] using hdiffer
    rcases hf.kept hbefore with hk | ⟨starts, rfl⟩
    · left
      rcases h with rfl | hhistory
      · refine ⟨hk.past, hk.future, hk.limit, ?_⟩
        cases hb : j.begun with
        | none =>
            right
            rcases hk.pending with hpending | ⟨-, hbegun⟩
            · exact ⟨by rw [hpending, hb], rfl⟩
            · rw [hb] at hbegun
              cases hbegun
        | some b => simpa [hb] using hk.pending
      · refine ⟨by rw [hhistory]; exact hk.past, by rw [hhistory]; exact hk.future,
          by rw [hhistory]; exact hk.limit, Or.inl ?_⟩
        rw [hhistory, History.pending_record]
        rcases hk.pending with hpending | ⟨hpending, hbegun⟩
        · rw [hpending]
        · rw [hpending, hbegun]
          rfl
    · exact absurd hdiffer not_differ_of_twice

/-! ## Every recorded move -/

theorem answerDone_post {edit : Edit Unit} {post : Editor → Prop}
    (h : Triple (·.core = c) edit (fun _ e => post e) fun e => Stays c e.core) :
    Triple (·.core = c) (carryOut.answerDone edit) (fun _ e => post e) fun _ => True :=
  Triple.bind (h.conseq (fun _ => id) (fun _ _ => id) fun _ _ => trivial) fun _ =>
    Triple.pure _ fun _ => id

/-- A change that joins others is recorded, unless the layer that it is for is not there. -/
theorem joins_carryOut {cmd : Command} (h : Move.kind? (.command cmd) = some .joins) :
    Triple (·.core = c) (carryOut cmd)
      (fun _ e => e.core = c ∨ Makes (c.history.record c.root).1 c e.core) fun _ => True := by
  cases cmd with
  | update updates recorded keepRatio =>
      cases recorded with
      | false => cases h
      | true =>
          exact answerDone_post
            ((update_makes updates true keepRatio).post_mono fun _ _ hm => Or.inr hm)
  | updateLayer id updates recorded =>
      cases recorded with
      | false => cases h
      | true => exact answerDone_post (updateLayer_makes id updates true)
  | reorder ids =>
      exact answerDone_post ((reorder_makes ids).post_mono fun _ _ hm => Or.inr hm)
  | replaceImage imagePath dimensions target =>
      simp only [Move.kind?] at h
      split at h <;> cases h
  | _ => cases h

/-- What an operation that is recorded at once leaves. -/
def RecordedAtOnce (c c' : Core) : Prop :=
  c' = c ∨ c'.history = (c.history.checkpoint c.root).1 ∧ (c.Grounded → c'.Grounded)

theorem recordedAtOnce_of_makes (h : c' = c ∨ Makes (c.history.checkpoint c.root).1 c c') :
    RecordedAtOnce c c' := by
  rcases h with heq | hm
  · exact Or.inl heq
  · exact Or.inr ⟨hm.history, hm.grounded⟩

theorem alone_carryOut {cmd : Command} (h : Move.kind? (.command cmd) = some .alone) :
    Triple (·.core = c) (carryOut cmd) (fun _ e => RecordedAtOnce c e.core) fun _ => True := by
  cases cmd with
  | resetParams =>
      exact answerDone_post
        (resetParams_makes.post_mono fun _ _ hm => recordedAtOnce_of_makes (Or.inr hm))
  | addLayer document =>
      exact Triple.map ((addLayer_makes document).conseq (fun _ => id)
        (fun _ _ hm => recordedAtOnce_of_makes (Or.inr hm)) fun _ _ => trivial)
  | removeLayer id =>
      exact answerDone_post
        ((removeLayer_makes id).post_mono fun _ _ hm => recordedAtOnce_of_makes hm)
  | duplicateLayer layer =>
      exact Triple.map ((duplicateLayer_makes layer).conseq (fun _ => id)
        (fun _ _ hm => recordedAtOnce_of_makes hm) fun _ _ => trivial)
  | importTemplate text =>
      refine Triple.map ((importTemplate_core text).conseq (fun _ => id) (fun _ e hm => ?_)
        fun _ _ => trivial)
      rcases hm with heq | ⟨-, hhistory, hground⟩
      · exact Or.inl heq
      · exact Or.inr ⟨hhistory, hground⟩
  | replaceImage imagePath dimensions target =>
      have hname : imagePath ≠ "" := by
        intro hempty
        simp [Move.kind?, hempty] at h
      exact answerDone_post ((replaceImage_swaps imagePath dimensions target).post_mono
        fun _ _ hs => recordedAtOnce_of_makes (Or.inr (hs.2 hname)))
  | update updates recorded keepRatio => cases recorded <;> cases h
  | updateLayer id updates recorded => cases recorded <;> cases h
  | _ => cases h

/-- A run of a command that succeeds leaves what its triple says. -/
theorem post_of_succeeds {cmd : Command} {post : Editor → Prop} {failed : Editor → Prop}
    (h : Triple (·.core = e.core) (carryOut cmd) (fun _ e' => post e') failed)
    (hok : e.succeeds (.command cmd)) : post (e.apply (.command cmd)) := by
  have hok : ((carryOut cmd).run e).result.isOk = true := hok
  cases hrun : ((carryOut cmd).run e).result with
  | ok a => exact h.of_run_ok rfl hrun
  | error f =>
      rw [hrun] at hok
      cases hok

/-- A command counts as a switch or as a recorded operation, never as a pause. -/
theorem kind?_command {cmd : Command} {kind : Move.Kind}
    (h : Move.kind? (.command cmd) = some kind) :
    kind = .joins ∨ kind = .alone ∨ kind = .switches ∧ ∃ target, cmd = .switchContext target := by
  cases cmd with
  | switchContext target => exact Or.inr (Or.inr ⟨(Option.some.inj h).symm, target, rfl⟩)
  | update updates recorded keepRatio => cases recorded <;> cases h; exact Or.inl rfl
  | updateLayer id updates recorded => cases recorded <;> cases h; exact Or.inl rfl
  | replaceImage imagePath dimensions target =>
      simp only [Move.kind?] at h
      split at h
      · cases h
      · exact Or.inr (Or.inl (Option.some.inj h).symm)
  | _ => cases h <;> simp

/-- A switch that leads to another context ends the step in progress; another one does nothing. -/
theorem Follows.switches (hf : Follows limit j e.core) (target : Option String) :
    Follows limit
      (if e.leaves (.command (.switchContext target)) then j.close else j)
      (e.apply (.command (.switchContext target))).core := by
  rw [apply, carryOut, editor_run_answerDone]
  by_cases hd : ∃ d, e.destination target = .ok (some d)
  · obtain ⟨d, hd⟩ := hd
    have hcore := (switchContext_core hd).of_run
      (I := fun e' => e'.core = { e.core with context := d, history := e.history.flush.1 })
      rfl (fun _ _ => id) fun _ => id
    have hleaves : e.leaves (.command (.switchContext target)) = true := by
      show (e.destination target).toOption.join.isSome = true
      rw [hd]
      rfl
    rw [if_pos hleaves, hcore]
    exact hf.close (hf.grounded.elsewhere _ _) rfl rfl
  · have hsame := Keeps.of_run (keeps_switchContext target (e := e)
      fun d hd' => hd ⟨d, hd'⟩) rfl
    have hleaves : e.leaves (.command (.switchContext target)) = false := by
      show (e.destination target).toOption.join.isSome = false
      cases hdest : e.destination target with
      | error f => rfl
      | ok next =>
          cases next with
          | none => rfl
          | some d => exact absurd ⟨d, hdest⟩ hd
    rw [hleaves, hsame]
    exact hf

/-- Along a run, the history remembers what the journal notes. -/
theorem Follows.note {m : Move} (hf : Follows limit j e.core) (hkind : m.kind?.isSome)
    (hok : m.kind? ≠ some .switches → e.succeeds m) :
    Follows limit (j.note e m) (e.apply m).core := by
  obtain ⟨kind, hkind⟩ := Option.isSome_iff_exists.mp hkind
  unfold Journal.note
  rw [hkind] at hok ⊢
  cases m with
  | crop enabled => cases hkind
  | pauseOver =>
      obtain rfl : Move.Kind.pauses = kind := Option.some.inj hkind
      exact hf.close (hf.grounded.elsewhere _ _) rfl rfl
  | command cmd =>
      rcases kind?_command hkind with rfl | rfl | ⟨rfl, target, rfl⟩
      · rcases post_of_succeeds (joins_carryOut hkind) (hok (by simp)) with heq | hm
        · exact hf.joins (heq ▸ hf.grounded) (Or.inl heq)
        · exact hf.joins (hm.grounded hf.grounded) (Or.inr hm.history)
      · rcases post_of_succeeds (alone_carryOut hkind) (hok (by simp)) with heq | ⟨hhistory, hg⟩
        · exact hf.alone (heq ▸ hf.grounded) (Or.inl heq)
        · exact hf.alone (hg hf.grounded) (Or.inr hhistory)
      · exact hf.switches target

theorem Follows.continued {moves : List Move} (hf : Follows limit j e.core)
    (hmoves : Recorded e moves) :
    Follows limit (j.continued e moves) (e.after moves).core := by
  induction moves generalizing j e with
  | nil => exact hf
  | cons m moves ih =>
      obtain ⟨⟨hkind, hok⟩, hrest⟩ := hmoves
      exact ih (hf.note hkind hok) hrest

/-- An editor that starts over has an empty journal. -/
theorem follows_startOver (e : Editor) (listening : Bool) (hname : e.imagePath ≠ "") :
    Follows e.history.limit {} (e.apply (.command (.startOver listening))).core := by
  have hcore : (e.apply (.command (.startOver listening))).core =
      { e.core with
        root := e.core.identified .empty
        context := .root
        history := { limit := e.history.limit } } := by
    rw [apply, carryOut, editor_run_answerDone]
    exact (startOver_core listening).of_run
      (I := fun e' => e'.core =
        { e.core with
          root := e.core.identified .empty
          context := .root
          history := { limit := e.history.limit } })
      rfl (fun _ _ => id) fun _ => False.elim
  rw [hcore]
  refine ⟨⟨rfl, rfl, hname, rfl⟩, fun s hmem => absurd hmem List.not_mem_nil, fun _ => Or.inl ?_⟩
  exact ⟨by simp, rfl, rfl, Or.inl rfl⟩

end Retouch.Editor
