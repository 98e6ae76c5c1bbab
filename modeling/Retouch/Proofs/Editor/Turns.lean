/-
  What a move does to the timeline.

  The timeline of an editor is its tree along with the history.  A move asks for one step of it at
  most.  After a step that records the tree any tree may follow, and other steps leave the tree that
  they lead to; only a few operations replace the tree without any step (`turn_apply`).  That holds
  whether or not the move fails, so what is kept by the steps is kept in every run: the history is
  sound (`sound_after`), and in a run in which nothing is replaced without a step neighbours on the
  timeline are different (`threaded_after`).
-/
import Retouch.Proofs.Editor.Identity
import Retouch.Proofs.Editor.WalkBack
import Retouch.Proofs.History.Redo

/-! ## Commands that record -/

namespace Retouch

/-- The step of the timeline that a recorded operation asks for. -/
def Command.recording? : Command → Option Timeline.Step
  | .update _ true _ | .updateLayer _ _ true | .reorder _ => some .record
  | .resetParams | .addLayer _ | .removeLayer _ | .duplicateLayer _ | .replaceImage _ _ _
  | .importTemplate _ => some .checkpoint
  | _ => none

theorem Command.record_or_checkpoint {cmd : Command} {st : Timeline.Step}
    (h : cmd.recording? = some st) : st = .record ∨ st = .checkpoint := by
  unfold Command.recording? at h
  split at h <;> cases h <;> simp

/-- Whether a command replaces the tree and cannot be undone. -/
def Command.unrecorded : Command → Bool
  | .update _ false _ | .updateLayer _ _ false | .restore _ => true
  | _ => false

/-- Whether a command that has a result may have found nothing to do. -/
def Command.Passes (e : Editor) : Command → Prop
  | .updateLayer id _ _ | .removeLayer id | .duplicateLayer id => e.contextLayer? id = .ok none
  | .importTemplate _ => True
  | _ => False

end Retouch

namespace Retouch.Editor

open Edit Editor.Core

variable {α β : Type}

/-- The tree of a core and its history. -/
def Core.timeline (c : Core) : Timeline := ⟨c.root, c.history⟩

/-- Whether the history is as a step of the timeline leaves it. -/
def Records (st : Timeline.Step) (c c' : Core) : Prop := c'.history = (c.timeline.step st).history

/-- Whether the timeline is as it was, or the history as a step leaves it. -/
def Turns (st : Timeline.Step) (c c' : Core) : Prop := c'.timeline = c.timeline ∨ Records st c c'

/-! ## Changes after the recording -/

section

variable {h : History}

theorem keeps_history_mapRoot (f : State → Except Failure State) :
    Keeps (·.history = h) (mapRoot f) :=
  Triple.mapRoot (fun _ _ he _ => he) fun _ _ he _ => he

theorem keeps_history_writeCurrent (s : State) : Keeps (·.history = h) (writeCurrent s) :=
  (Keeps.view _).bind fun _ => keeps_history_mapRoot _

theorem keeps_history_updateLayers (f : List Layer → List Layer) :
    Keeps (·.history = h) (updateLayers f) :=
  (Keeps.view _).bind fun _ => keeps_history_mapRoot _

theorem keeps_history_replaceLayer (id : String) (f : Layer → Layer) :
    Keeps (·.history = h) (replaceLayer id f) :=
  (Keeps.view _).bind fun _ => keeps_history_mapRoot _

theorem keeps_history_merge (cs : Changes) :
    Keeps (·.history = h)
      (do
        let s ← Edit.view current
        let merged ← Edit.check (s.merged cs)
        writeCurrent merged
        changed) := by
  refine (Keeps.view _).bind fun s => (Keeps.check _ fun _ _ he => he).bind fun merged => ?_
  exact (keeps_history_writeCurrent merged).bind fun _ => keeps_changed

end

/-! ## Rules -/

section

variable {st : Timeline.Step} {c : Core} {e : Editor} {post : β → Editor → Prop}

/-- A step before the recording, which leaves the core alone. -/
theorem bind_turns {m : Edit α} {g : α → Edit β} (hm : Keeps (·.core = c) m)
    (hg : ∀ a, Triple (·.core = c) (g a) post fun e => Turns st c e.core) :
    Triple (·.core = c) (m >>= g) post fun e => Turns st c e.core :=
  Triple.bind (hm.conseq (fun _ => id) (fun _ _ => id) fun _ he =>
    Or.inl (congrArg Core.timeline he)) hg

theorem contextLayer?_of_core {e e' : Editor} (h : e'.core = e.core) (id : String) :
    e'.contextLayer? id = e.contextLayer? id := by
  have hroot : e'.root = e.root := congrArg Core.root h
  have hpath : e'.path = e.path := path_eq h
  unfold contextLayer? current contextLost
  rw [hroot, hpath]

/-- Looking for a layer before the recording. -/
theorem bind_contextLayer {id : String} {g : Option Layer → Edit β}
    (hnone : e.contextLayer? id = .ok none →
      Triple (·.core = e.core) (g none) post fun e' => Turns st e.core e'.core)
    (hsome : ∀ l, Triple (·.core = e.core) (g (some l)) post fun e' => Turns st e.core e'.core) :
    Triple (·.core = e.core) (Edit.view (·.contextLayer? id) >>= g) post
      fun e' => Turns st e.core e'.core := by
  refine Triple.bind_found (R := fun found => e.contextLayer? id = .ok found)
    (fun _ he => Or.inl (congrArg Core.timeline he)) ?_ fun found hfound => ?_
  · intro e' found he hfound
    exact contextLayer?_of_core he id ▸ hfound
  · cases found with
    | none => exact hnone hfound
    | some l => exact hsome l

/-- The recording, and a change after it. -/
theorem recorded_turns {f : History → State → History × List History.Effect}
    {m : Unit → Edit α} (hm : ∀ h, Keeps (·.history = h) (m ()))
    (hf : ∀ c : Core, (c.timeline.step st).history = (f c.history c.root).1) :
    Triple (·.core = c) (recordBy f >>= m) (fun _ e => Records st c e.core)
      fun e => Turns st c e.core := by
  refine Triple.bind (R := fun _ e => e.history = (c.timeline.step st).history)
    (Triple.recordBy fun e he => ?_) fun _ => ?_
  · rw [hf, ← he]
    rfl
  · exact (hm _).conseq (fun _ => id) (fun _ _ => id) fun _ => Or.inr

theorem turns_answerDone {edit : Edit Unit} {done : Editor → Prop} {failed : Editor → Prop}
    (h : Triple (·.core = c) edit (fun _ e => done e) failed) :
    Triple (·.core = c) (carryOut.answerDone edit) (fun _ e => done e) failed :=
  Triple.bind h fun _ => Triple.pure _ fun _ => id

end

/-! ## Recorded operations -/

section

variable {c : Core} {e : Editor}

theorem update_turns (updates : Updates) (keepRatio : Bool) :
    Triple (·.core = c) (update updates true keepRatio) (fun _ e => Records .record c e.core)
      fun e => Turns .record c e.core := by
  unfold update
  refine bind_turns (keeps_check _) fun changes => ?_
  extract_lets kept noted
  have hnoted : ∀ u, Triple (·.core = c) (noted u) (fun _ e => Records .record c e.core)
      fun e => Turns .record c e.core := fun _ =>
    bind_turns (Keeps.view _) fun completed =>
      recorded_turns (fun _ => keeps_history_merge completed) fun _ => rfl
  split
  · exact bind_turns (Triple.change fun _ he => he) hnoted
  · exact hnoted ()

theorem updateLayer_turns (id : String) (u : LayerUpdates) :
    Triple (·.core = e.core) (updateLayer id u true)
      (fun _ e' => Records .record e.core e'.core ∨
        e.contextLayer? id = .ok none ∧ e'.core = e.core)
      fun e' => Turns .record e.core e'.core := by
  refine bind_turns (keeps_check _) fun preset => ?_
  refine bind_contextLayer (fun hnone => ?_) fun l => ?_
  · exact Triple.pure () fun e' he => Or.inr ⟨hnone, he⟩
  · have hupdated : Keeps (·.core = e.core) (updatedLayer l u preset) :=
      (idle_updatedLayer l u preset).keeps fun _ _ he => he
    refine bind_turns hupdated fun updated => Triple.post_mono ?_ fun _ _ => Or.inl
    refine recorded_turns (fun h => ?_) fun _ => rfl
    exact (keeps_history_replaceLayer id _).bind fun _ => keeps_changed

theorem reorder_turns (ids : List String) :
    Triple (·.core = c) (reorder ids) (fun _ e => Records .record c e.core)
      fun e => Turns .record c e.core := by
  refine bind_turns (Keeps.view _) fun layers => recorded_turns (fun h => ?_) fun _ => rfl
  exact (keeps_history_updateLayers _).bind fun _ => keeps_changed

theorem resetParams_turns :
    Triple (·.core = c) resetParams (fun _ e => Records .checkpoint c e.core)
      fun e => Turns .checkpoint c e.core := by
  refine recorded_turns (fun h => ?_) fun _ => rfl
  refine (Keeps.view _).bind fun s => Keeps.bind (Triple.change fun _ he => he) fun _ => ?_
  exact (keeps_history_writeCurrent _).bind fun _ => keeps_changed

theorem addLayer_turns (document : Value) :
    Triple (·.core = c) (addLayer document) (fun _ e => Records .checkpoint c e.core)
      fun e => Turns .checkpoint c e.core := by
  refine bind_turns (keeps_check _) fun l => recorded_turns (fun h => ?_) fun _ => rfl
  exact (keeps_history_updateLayers _).bind fun _ => keeps_changed.bind fun _ => Keeps.pure l

theorem removeLayer_turns (id : String) :
    Triple (·.core = e.core) (removeLayer id)
      (fun _ e' => Records .checkpoint e.core e'.core ∨
        e.contextLayer? id = .ok none ∧ e'.core = e.core)
      fun e' => Turns .checkpoint e.core e'.core := by
  refine bind_contextLayer (fun hnone => ?_) fun l => Triple.post_mono ?_ fun _ _ => Or.inl
  · exact Triple.pure () fun e' he => Or.inr ⟨hnone, he⟩
  · refine recorded_turns (fun h => ?_) fun _ => rfl
    refine (keeps_history_updateLayers _).bind fun _ => ?_
    refine Keeps.bind (Triple.change fun e he => ?_) fun _ => keeps_changed
    split
    · exact he
    · exact he

theorem duplicateLayer_turns (id : String) :
    Triple (·.core = e.core) (duplicateLayer id)
      (fun _ e' => Records .checkpoint e.core e'.core ∨
        e.contextLayer? id = .ok none ∧ e'.core = e.core)
      fun e' => Turns .checkpoint e.core e'.core := by
  refine bind_contextLayer (fun hnone => ?_) fun l => ?_
  · exact Triple.pure none fun e' he => Or.inr ⟨hnone, he⟩
  · refine bind_turns (keeps_check _) fun fresh => bind_turns (Keeps.view _) fun copy => ?_
    refine Triple.post_mono (recorded_turns (fun h => ?_) fun _ => rfl) fun _ _ => Or.inl
    exact (keeps_history_updateLayers _).bind fun _ =>
      keeps_changed.bind fun _ => Keeps.pure (some copy)

theorem replaceImage_turns (imagePath : String) (dimensions : Value) (target : Option String) :
    Triple (·.core = c) (replaceImage imagePath dimensions target)
      (fun _ e => Records .checkpoint c e.core) fun e => Turns .checkpoint c e.core := by
  refine bind_turns (keeps_check _) fun size => ?_
  extract_lets finish rest
  have hfinish : ∀ h u, Keeps (·.history = h) (finish u) := fun h _ => keeps_changed
  have hrest : ∀ u, Triple (·.core = c) (rest u) (fun _ e => Records .checkpoint c e.core)
      fun e => Turns .checkpoint c e.core := by
    refine fun _ => recorded_turns (fun h => (Keeps.view _).bind fun e => ?_) fun _ => rfl
    cases target with
    | some target => exact (keeps_history_replaceLayer target _).bind (hfinish h)
    | none =>
        by_cases hroot : e.path.isEmpty
        · rw [if_pos hroot]
          exact Keeps.bind (Triple.change fun _ he => he) fun _ =>
            Keeps.bind (Triple.change fun _ he => he) (hfinish h)
        · rw [if_neg hroot]
          exact (Keeps.view _).bind fun l => (keeps_history_mapRoot _).bind (hfinish h)
  cases target with
  | none => exact hrest ()
  | some target =>
      refine bind_turns (Keeps.view _) fun found => ?_
      cases found with
      | none => exact bind_turns (Keeps.fail _) hrest
      | some l => exact hrest ()

theorem importTemplate_turns (text : String) :
    Triple (·.core = c) (importTemplate text)
      (fun _ e => Records .checkpoint c e.core ∨ e.core = c)
      fun e => Turns .checkpoint c e.core := by
  have hread : Keeps (·.core = c) (readTemplate text) :=
    (readTemplate_core text).post_mono fun _ _ he => he.1
  refine bind_turns hread fun result => ?_
  cases result.outcome with
  | none => exact Triple.pure result fun _ => Or.inr
  | some taken =>
      refine Triple.post_mono (recorded_turns (fun h => ?_) fun _ => rfl) fun _ _ => Or.inl
      refine Keeps.bind (Triple.change fun _ he => he) fun _ => ?_
      exact keeps_changed.bind fun _ => Keeps.pure result

/-- A recorded operation that has a result has asked for its step, unless it found nothing to do;
    one that fails may have asked for it. -/
theorem turns_carryOut {cmd : Command} {st : Timeline.Step} (h : cmd.recording? = some st) :
    Triple (·.core = e.core) (carryOut cmd)
      (fun _ e' => Records st e.core e'.core ∨ cmd.Passes e ∧ e'.core = e.core)
      fun e' => Turns st e.core e'.core := by
  cases cmd with
  | update updates recorded keepRatio =>
      cases recorded <;> cases h
      exact turns_answerDone ((update_turns updates keepRatio).post_mono fun _ _ => Or.inl)
  | updateLayer id updates recorded =>
      cases recorded <;> cases h
      exact turns_answerDone (updateLayer_turns id updates)
  | reorder ids =>
      cases h
      exact turns_answerDone ((reorder_turns ids).post_mono fun _ _ => Or.inl)
  | resetParams =>
      cases h
      exact turns_answerDone (resetParams_turns.post_mono fun _ _ => Or.inl)
  | addLayer document =>
      cases h
      exact Triple.map ((addLayer_turns document).post_mono fun _ _ => Or.inl)
  | removeLayer id =>
      cases h
      exact turns_answerDone (removeLayer_turns id)
  | duplicateLayer id =>
      cases h
      exact Triple.map (duplicateLayer_turns id)
  | replaceImage imagePath dimensions target =>
      cases h
      exact turns_answerDone
        ((replaceImage_turns imagePath dimensions target).post_mono fun _ _ => Or.inl)
  | importTemplate text =>
      cases h
      refine Triple.map ((importTemplate_turns text).post_mono fun _ _ hm => ?_)
      exact hm.imp_right fun hsame => ⟨trivial, hsame⟩
  | _ => cases h

end

/-! ## Operations that are not recorded -/

section

variable {h : History}

theorem keeps_history_update (updates : Updates) (keepRatio : Bool) :
    Keeps (·.history = h) (update updates false keepRatio) := by
  unfold update
  refine (Keeps.check _ fun _ _ he => he).bind fun changes => ?_
  extract_lets kept noted
  have hnoted : ∀ u, Keeps (·.history = h) (noted u) := fun _ =>
    (Keeps.view _).bind fun completed => keeps_history_merge completed
  split
  · exact Keeps.bind (Triple.change fun _ he => he) hnoted
  · exact hnoted ()

theorem keeps_history_updateLayer (id : String) (u : LayerUpdates) :
    Keeps (·.history = h) (updateLayer id u false) := by
  refine (Keeps.check _ fun _ _ he => he).bind fun preset => (Keeps.view _).bind fun found => ?_
  cases found with
  | none => exact Keeps.pure ()
  | some l =>
      refine ((idle_updatedLayer l u preset).keeps fun _ _ he => he).bind fun updated => ?_
      exact (keeps_history_replaceLayer id _).bind fun _ => keeps_changed

theorem keeps_history_restore (document : Updates) :
    Keeps (·.history = h) (restore document) := by
  unfold restore
  refine (Keeps.check _ fun _ _ he => he).bind fun s => ?_
  extract_lets names rest
  have hrest : ∀ u, Keeps (·.history = h) (rest u) := fun _ =>
    Keeps.bind (Triple.change fun _ he => he) fun _ =>
      (keeps_history_writeCurrent _).bind fun _ => keeps_changed
  clear_value names
  cases names with
  | none => exact hrest ()
  | some named =>
      refine Keeps.bind (Triple.change fun e he => ?_) hrest
      split
      · exact he
      · exact he

theorem keeps_history_carryOut {cmd : Command} (hcmd : cmd.unrecorded = true) :
    Keeps (·.history = h) (carryOut cmd) := by
  have hdone : ∀ {edit : Edit Unit}, Keeps (·.history = h) edit →
      Keeps (·.history = h) (carryOut.answerDone edit) := fun hm => hm.bind fun _ => Keeps.pure _
  cases cmd with
  | update updates recorded keepRatio =>
      cases recorded <;> cases hcmd
      exact hdone (keeps_history_update updates keepRatio)
  | updateLayer id updates recorded =>
      cases recorded <;> cases hcmd
      exact hdone (keeps_history_updateLayer id updates)
  | restore document => exact hdone (keeps_history_restore document)
  | _ => cases hcmd

end

/-! ## Moves -/

/-- Whether a move replaces the tree and cannot be undone. -/
def Move.unrecorded : Move → Bool
  | .command cmd => cmd.unrecorded
  | _ => false

/-- What a move does to the timeline. -/
inductive Turn (m : Move) (c c' : Core) : Prop where
  | rests (h : c'.timeline = c.timeline)
  /-- Another tree takes the place of the current one. -/
  | replaces (hm : m.unrecorded = true) (h : c'.history = c.history)
  /-- After a step that lets any tree follow, any tree follows. -/
  | opens (st : Timeline.Step) (hst : st.opens = true) (h : Records st c c')
  /-- The tree that a step leads to is the current one, if it is one that is stored. -/
  | goes (st : Timeline.Step) (hst : ∀ s, st ≠ .replace s) (h : Records st c c')
      (hroot : (c.timeline.step st).current.Stored → c'.root = (c.timeline.step st).current)

theorem Turn.of_core {m : Move} {c c' : Core} (h : c' = c) : Turn m c c' :=
  .rests (congrArg Core.timeline h)

theorem Turn.of_keeps {m : Move} {e : Editor} {edit : Edit α}
    (h : Keeps (·.core = e.core) edit) : Turn m e.core (edit.run e).editor.core :=
  .of_core (h.of_run rfl)

/-- A recorded operation has left all as it was or asked for its step, also when it fails. -/
theorem turns_apply {e : Editor} {cmd : Command} {st : Timeline.Step}
    (h : cmd.recording? = some st) : Turns st e.core (e.apply (.command cmd)).core := by
  refine (turns_carryOut h).of_run (I := fun e' => Turns st e.core e'.core) rfl ?_ fun _ => id
  rintro _ e' (hrecords | ⟨-, hsame⟩)
  · exact Or.inr hrecords
  · exact Or.inl (congrArg timeline hsame)

theorem turn_recorded {e : Editor} {cmd : Command} {st : Timeline.Step}
    (h : cmd.recording? = some st) :
    Turn (.command cmd) e.core (e.apply (.command cmd)).core := by
  have hst : st.opens = true := by
    rcases Command.record_or_checkpoint h with rfl | rfl <;> rfl
  rcases turns_apply h with hsame | hrecords
  · exact .rests hsame
  · exact .opens st hst hrecords

/-- Going back and forward leave the tree that the history gives. -/
theorem turn_travel {m : Move} {e : Editor} (st : Timeline.Step)
    {f : History → State → Option State × History × List History.Effect}
    (hst : ∀ s, st ≠ .replace s)
    (hf : e.core.timeline.step st = e.core.timeline.travel (f e.history e.root)) :
    Turn m e.core ((travel f).run e).editor.core := by
  obtain ⟨b, -, hcore⟩ := (travel_core f e).run_total rfl
  have hcurrent : (e.core.timeline.step st).current = (f e.history e.root).1.getD e.root :=
    congrArg Timeline.current hf
  have hhistory : (e.core.timeline.step st).history = (f e.history e.root).2.1 :=
    congrArg Timeline.history hf
  cases hfound : (f e.history e.root).1 with
  | none =>
      rw [hfound] at hcore hcurrent
      rw [hcore.2]
      exact .goes st hst hhistory.symm fun _ => hcurrent.symm
  | some tree =>
      rw [hfound] at hcore hcurrent
      rw [hcore.2]
      refine .goes st hst ?_ fun hstored => ?_
      · exact (history_withTree _ tree).trans hhistory.symm
      · rw [hcurrent] at hstored ⊢
        exact (grounded_withTree _ hstored).2

/-- Every move asks for one step of the timeline at most, also when it fails. -/
theorem turn_apply (e : Editor) (m : Move) : Turn m e.core (e.apply m).core := by
  cases m with
  | crop enabled => exact .of_keeps (keeps_setVisualCrop enabled)
  | pauseOver => exact .goes .pauseOver (by simp) rfl fun _ => rfl
  | command cmd =>
      cases hrecorded : cmd.recording? with
      | some st => exact turn_recorded hrecorded
      | none =>
          by_cases hplain : cmd.unrecorded = true
          · exact .replaces hplain ((keeps_history_carryOut hplain).of_run rfl)
          · cases cmd with
            | startOver listening =>
                rw [apply, carryOut, editor_run_answerDone]
                refine .opens .clear rfl ?_
                have hcore := (startOver_core listening (c := e.core)).run_total rfl
                obtain ⟨_, -, hcore⟩ := hcore
                rw [hcore]
                rfl
            | switchContext target =>
                rw [apply, carryOut, editor_run_answerDone]
                by_cases hd : ∃ d, e.destination target = .ok (some d)
                · obtain ⟨d, hd⟩ := hd
                  have hcore := (switchContext_core hd).of_run
                    (I := fun e' => e'.core =
                      { e.core with context := d, history := e.history.flush.1 })
                    rfl (fun _ _ => id) fun _ => id
                  rw [hcore]
                  exact .goes .flush (by simp) rfl fun _ => rfl
                · have hsame := Keeps.of_run (keeps_switchContext target (e := e)
                    fun d hd' => hd ⟨d, hd'⟩) rfl
                  rw [hsame]
                  exact .of_core rfl
            | undo =>
                rw [apply, carryOut, editor_run_map]
                exact turn_travel .undo (by simp) rfl
            | redo =>
                rw [apply, carryOut, editor_run_map]
                exact turn_travel .redo (by simp) rfl
            | destroy =>
                rw [apply, carryOut, editor_run_answerDone]
                exact .of_keeps keeps_destroy
            | toggleAspect =>
                rw [apply, carryOut, editor_run_map]
                exact .of_keeps keeps_toggleAspect
            | select id =>
                rw [apply, carryOut, editor_run_answerDone]
                exact .of_keeps (keeps_select id)
            | notifyLoaded =>
                rw [apply, carryOut, editor_run_answerDone]
                exact .of_keeps (Keeps.ask _)
            | update updates recorded keepRatio =>
                cases recorded
                · exact absurd rfl hplain
                · cases hrecorded
            | updateLayer id updates recorded =>
                cases recorded
                · exact absurd rfl hplain
                · cases hrecorded
            | restore document => exact absurd rfl hplain
            | _ => cases hrecorded

/-! ## Runs -/

section

variable {m : Move} {c c' : Core}

theorem Turn.sound (h : Turn m c c') (hs : c.history.Sound) : c'.history.Sound := by
  cases h with
  | rests h =>
      rw [show c'.history = c.history from congrArg Timeline.history h]
      exact hs
  | replaces hm h =>
      rw [h]
      exact hs
  | opens st hst h | goes st hst h hroot =>
      rw [h]
      exact Timeline.sound_step hs _

/-- As long as a capture waits, the entries stay as they are and so does the capture. -/
theorem Turn.waits (h : Turn m c c') {s : State} (hp : c.history.pending = some s)
    (hwaits : c'.history.pending.isSome) :
    c'.history.past = c.history.past ∧ c'.history.future = c.history.future ∧
      c'.history.pending = some s := by
  cases h with
  | rests h =>
      rw [show c'.history = c.history from congrArg Timeline.history h]
      exact ⟨rfl, rfl, hp⟩
  | replaces hm h =>
      rw [h]
      exact ⟨rfl, rfl, hp⟩
  | opens st hst h | goes st hst h hroot =>
      rw [h] at hwaits ⊢
      exact Timeline.step_waits hp hwaits

end

/-- As long as a capture waits, moves add nothing to the entries and take nothing away. -/
theorem waits_after {e : Editor} {s : State} {moves : List Move}
    (hp : e.history.pending = some s)
    (hwaits : ∀ n < moves.length, (e.after (moves.take (n + 1))).history.pending.isSome) :
    (e.after moves).history.past = e.history.past ∧
      (e.after moves).history.future = e.history.future ∧
      (e.after moves).history.pending = some s := by
  induction moves generalizing e with
  | nil => exact ⟨rfl, rfl, hp⟩
  | cons m moves ih =>
      obtain ⟨hpast, hfuture, hkept⟩ := (turn_apply e m).waits hp (hwaits 0 (Nat.succ_pos _))
      obtain ⟨hpast', hfuture', hkept'⟩ := ih hkept fun n hn =>
        hwaits (n + 1) (Nat.succ_lt_succ hn)
      exact ⟨hpast'.trans hpast, hfuture'.trans hfuture, hkept'⟩

section

variable (settings : Settings) (imagePath : String) (size : Size) (bounds : Option Size)
  {moves : List Move}

/-- The history is sound in every run. -/
theorem sound_after (moves : List Move) :
    ((start settings imagePath size bounds).after moves).history.Sound := by
  induction moves using List.reverseRecOn with
  | nil => exact History.Sound.empty _
  | append_singleton moves m ih =>
      rw [after_snoc]
      exact (turn_apply _ m).sound ih

theorem regular_after (moves : List Move) :
    ((start settings imagePath size bounds).after moves).core.timeline.Regular := by
  obtain ⟨hroot, htrees⟩ := identifies_after settings imagePath size bounds moves
  refine ⟨sound_after settings imagePath size bounds moves, hroot.mark, fun s hs => ?_⟩
  obtain ⟨n, -, -, hidentifies⟩ :=
    htrees s (List.mem_append_right _ (Option.mem_toList.mpr hs))
  exact hidentifies.mark

theorem Identifies.stored {e : Editor} {s : State} (h : Identifies e s)
    (hname : e.imagePath ≠ "") : s.Stored :=
  ⟨⟨e.imagePath, e.size, hname, h.image, h.size⟩, h.mark⟩

/-- As long as the base image has a name, every tree has one that is stored. -/
theorem stored_after
    (hnamed : ∀ n, ((start settings imagePath size bounds).after (moves.take n)).imagePath ≠ "") :
    let e := (start settings imagePath size bounds).after moves
    e.root.Stored ∧ e.history.Consists State.Stored := by
  intro e
  obtain ⟨hroot, htrees⟩ := identifies_after settings imagePath size bounds moves
  have hstored : ∀ s ∈ e.history.past ++ e.history.future ++ e.history.pending.toList,
      s.Stored := by
    intro s hs
    obtain ⟨n, -, -, hidentifies⟩ := htrees s hs
    exact hidentifies.stored (hnamed n)
  refine ⟨hroot.stored ?_, fun s hs => ?_, fun s hs => ?_, fun s hs => ?_⟩
  · have hlast := hnamed moves.length
    rwa [List.take_length] at hlast
  · exact hstored s (by simp [hs])
  · exact hstored s (by simp [hs])
  · exact hstored s (List.mem_append_right _ (Option.mem_toList.mpr hs))

/-- Neighbours on the timeline are different in every run in which no tree is replaced without
    being recorded, and the base image has a name. -/
theorem threaded_after (hrecorded : ∀ m ∈ moves, m.unrecorded = false)
    (hnamed : ∀ n, ((start settings imagePath size bounds).after (moves.take n)).imagePath ≠ "") :
    ((start settings imagePath size bounds).after moves).core.timeline.Threaded := by
  induction moves using List.reverseRecOn with
  | nil => exact Timeline.threaded_start _ _
  | append_singleton moves m ih =>
      have hbefore : ∀ n,
          ((start settings imagePath size bounds).after (moves.take n)).imagePath ≠ "" := by
        intro n
        have hn := hnamed (min n moves.length)
        rwa [List.take_append_of_le_length (Nat.min_le_right _ _), ← List.take_take,
          List.take_length] at hn
      have ht := ih (fun k hk => hrecorded k (List.mem_append_left _ hk)) hbefore
      have hr := regular_after settings imagePath size bounds moves
      obtain ⟨hroot, hhistory⟩ := stored_after settings imagePath size bounds hbefore
      rw [after_snoc]
      generalize (start settings imagePath size bounds).after moves = e at ht hr hroot hhistory ⊢
      have hturn := turn_apply e m
      generalize (e.apply m).core = c' at hturn ⊢
      cases hturn with
      | rests h =>
          rw [h]
          exact ht
      | replaces hm h =>
          have hkind := hrecorded m (List.mem_append_right _ List.mem_cons_self)
          rw [hm] at hkind
          cases hkind
      | opens st hst h =>
          have hstep : c'.timeline = (e.core.timeline.step st).step (.replace c'.root) :=
            congrArg (Timeline.mk c'.root) h
          rw [hstep]
          exact ht.step_replace hr hst c'.root
      | goes st hst h hgo =>
          have hcurrent := hgo
            (Timeline.current_step (fun s hs => hs.plain) hhistory hroot hst)
          have hstep : c'.timeline = e.core.timeline.step st := by
            show (⟨c'.root, c'.history⟩ : Timeline) = _
            rw [hcurrent, h]
          rw [hstep]
          exact ht.step hr hst

end

end Retouch.Editor
