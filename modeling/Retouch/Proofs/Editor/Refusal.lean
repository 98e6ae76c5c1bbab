/-
  What operations that fail leave behind.

  An operation changes the editor step by step, and what it changed before a failure stays changed.
  Most operations work out all that can fail first: once they change something they go on to the
  end, if the context is a path in the tree.  Such an operation fails without a trace, apart from
  ids that it issued (`carryOut_failsTo`).

  Changing settings is different.  The mark of the crop mode is set and the capture for the history
  is taken before the new settings are validated, and both stay if these are refused
  (`update_failsTo`).
-/
import Retouch.Proofs.Editor.Context
import Retouch.Proofs.Session.Frame

namespace Retouch

namespace Edit

open Editor (Trace)

variable {α β : Type} {R : Trace → Prop} {t : Trace}

/-! ## Failures -/

/-- Whether an operation, if it fails on a trace, leaves one with a property. -/
def FailsTo (R : Trace → Prop) (m : Edit α) (t : Trace) : Prop :=
  ∀ f u, m t = (.error f, u) → R u

theorem FailsTo.pure (a : α) : FailsTo R (Pure.pure a : Edit α) t := fun _ _ h => by cases h

theorem FailsTo.bind {m : Edit α} {f : α → Edit β} (hm : FailsTo R m t)
    (hf : ∀ a u, m t = (.ok a, u) → FailsTo R (f a) u) : FailsTo R (m >>= f) t := by
  intro x u h
  have h : ExceptT.bindCont f (m t).1 (m t).2 = (.error x, u) := h
  cases hout : m t with
  | mk r v =>
      rw [hout] at h
      cases r with
      | error x =>
          cases h
          exact hm x v hout
      | ok a => exact hf a v hout x u h

theorem FailsTo.map {m : Edit α} {f : α → β} (hm : FailsTo R m t) : FailsTo R (f <$> m) t := by
  rw [map_eq_pure_bind]
  exact hm.bind fun a _ _ => FailsTo.pure (f a)

theorem FailsTo.view {g : Editor → Except Failure α}
    (h : ∀ x, g t.editor = .error x → R t) : FailsTo R (Edit.view g) t := by
  intro x u hrun
  cases hg : g t.editor with
  | ok a =>
      have hrun : (g t.editor, t) = (.error x, u) := hrun
      rw [hg] at hrun
      cases hrun
  | error x' =>
      obtain rfl : t = u := congrArg Prod.snd hrun
      exact h x' hg

theorem FailsTo.view_bind {g : Editor → Except Failure α} {f : α → Edit β}
    (herror : ∀ x, g t.editor = .error x → R t)
    (hok : ∀ a, g t.editor = .ok a → FailsTo R (f a) t) : FailsTo R (Edit.view g >>= f) t := by
  refine FailsTo.bind (FailsTo.view herror) fun a u hrun => ?_
  obtain rfl : t = u := congrArg Prod.snd hrun
  exact hok a (congrArg Prod.fst hrun)

theorem FailsTo.change_bind {g : Editor → Editor} {f : Unit → Edit β}
    (h : FailsTo R (f ()) { t with editor := g t.editor }) : FailsTo R (Edit.change g >>= f) t :=
  h

theorem FailsTo.recordBy_bind {g : History → State → History × List History.Effect}
    {f : Unit → Edit β}
    (h : FailsTo R (f ()) ⟨{ t.editor with history := (g t.editor.history t.editor.root).1 },
      t.effects ++ (g t.editor.history t.editor.root).2.map .history⟩) :
    FailsTo R (Edit.recordBy g >>= f) t := h

theorem FailsTo.check_bind {c : Check α} {f : α → Edit β} (herror : ∀ n, R (t.issue n))
    (hok : ∀ a, (c.run t.editor.issued).1 = .ok a →
      FailsTo R (f a) (t.issue (c.run t.editor.issued).2)) : FailsTo R (Edit.check c >>= f) t := by
  refine FailsTo.bind (fun x u hrun => ?_) fun a u hrun => ?_
  · obtain rfl : t.issue _ = u := congrArg Prod.snd hrun
    exact herror _
  · obtain rfl : t.issue _ = u := congrArg Prod.snd hrun
    exact hok a (congrArg Prod.fst hrun)

/-- An operation that cannot fail leaves anything. -/
theorem FailsTo.of_total {P : Editor → Prop} {Q : α → Editor → Prop} {m : Edit α}
    (h : Triple P m Q fun _ => False) (ht : P t.editor) : FailsTo R m t := by
  intro x u hrun
  have hfalse := h t ht
  rw [hrun] at hfalse
  exact hfalse.elim

/-! ## Steps that change nothing -/

theorem FailsTo.idle_bind {m : Edit α} {f : α → Edit β} (hm : Idle m)
    (herror : ∀ n, R (t.issue n)) (hok : ∀ a n, FailsTo R (f a) (t.issue n)) :
    FailsTo R (m >>= f) t := by
  obtain ⟨n, hn⟩ := hm t
  refine FailsTo.bind (fun x u hrun => ?_) fun a u hrun => ?_
  · obtain rfl : t.issue n = u := hn.symm.trans (congrArg Prod.snd hrun)
    exact herror n
  · obtain rfl : t.issue n = u := hn.symm.trans (congrArg Prod.snd hrun)
    exact hok a n

end Edit

namespace Editor

open Edit Editor.Core

variable {t : Trace}

/-! ## Steps that cannot fail -/

/-- Whether an operation in a context of the tree has a result, and stays in such a context. -/
def Completes {α : Type} (m : Edit α) : Prop :=
  Triple (·.core.Anchored) m (fun _ e => e.core.Anchored) fun _ => False

theorem Completes.pure {α : Type} (a : α) : Completes (Pure.pure a : Edit α) :=
  Triple.pure a fun _ => id

theorem Completes.bind {α β : Type} {m : Edit α} {f : α → Edit β} (hm : Completes m)
    (hf : ∀ a, Completes (f a)) : Completes (m >>= f) :=
  Triple.bind hm hf

theorem Completes.failsTo {α : Type} {m : Edit α} {R : Trace → Prop} (hm : Completes m)
    (ht : t.editor.core.Anchored) : FailsTo R m t :=
  FailsTo.of_total hm ht

/-- Observers are told a state that is there. -/
theorem completes_announce : Completes announce := by
  refine Triple.bind (R := fun _ e => e.core.Anchored) (Triple.view (fun _ _ he _ => he)
    fun _ _ _ h => nomatch h) fun listening => ?_
  cases listening with
  | false => exact Completes.pure ()
  | true =>
      refine Triple.bind (R := fun _ e => e.core.Anchored) (Triple.view (fun _ _ he _ => he) ?_)
        fun s => fun _ ht => ht
      intro e x he hx
      obtain ⟨s, hs⟩ := current_of_anchored he
      unfold visibleState at hx
      rw [hs] at hx
      cases hx

theorem completes_changed : Completes changed := completes_announce.bind fun _ => fun _ ht => ht

/-- A state is written. -/
theorem completes_writeCurrent (s : State) : Completes (writeCurrent s) := by
  -- At the base the tree itself is replaced; a layer is there, as the path leads to it.
  refine Triple.bind_view fun e he => Triple.mapRoot ?_ ?_
  · rintro e' root rfl hroot
    split at hroot
    · rename_i hpath
      show root.Resolves e'.path
      rw [List.isEmpty_iff.mp hpath]
      exact State.resolves_nil root
    · exact State.resolves_setTransformsAt hroot
  · rintro e' x rfl hroot
    split at hroot
    · cases hroot
    · rename_i hpath
      obtain ⟨root, hok⟩ := State.Resolves.exists_replaceLayerAt
        (fun h => hpath (List.isEmpty_iff.mpr h)) he
        fun l => { l with transforms := some s.withoutIdentity }
      exact nomatch hok.symm.trans hroot

/-- The layers are replaced. -/
theorem completes_updateLayers (f : List Layer → List Layer) : Completes (updateLayers f) := by
  refine Triple.bind_view fun e he => Triple.mapRoot ?_ ?_
  · rintro e' root rfl hroot
    exact State.resolves_updateLayersAt hroot
  · rintro e' x rfl hroot
    obtain ⟨s, hs⟩ := State.Resolves.exists_state he
    obtain ⟨root, hok⟩ := State.exists_updateLayersAt (f := fun ls => .ok (f ls)) hs rfl
    exact nomatch hok.symm.trans hroot

/-- Whether the context has a layer with an id. -/
def HasLayer (id : String) (e : Editor) : Prop := ∃ l, e.contextLayer? id = .ok (some l)

/-- A layer of the context is replaced. -/
theorem total_replaceLayer (id : String) (f : Layer → Layer) :
    Triple (HasLayer id) (replaceLayer id f) (fun _ e => e.core.Anchored) fun _ => False := by
  refine Triple.bind_view fun e he => Triple.mapRoot ?_ ?_
  · rintro e' root rfl hroot
    exact State.resolves_replaceLayerAt_snoc hroot
  · rintro e' x rfl hroot
    obtain ⟨l, hl⟩ := he
    unfold contextLayer? current at hl
    cases hs : e'.root.stateAt? e'.path with
    | none =>
        rw [hs] at hl
        cases hl
    | some s =>
        rw [hs] at hl
        obtain ⟨root, hok⟩ := State.exists_replaceLayerAt hs (Except.ok.inj hl) f
        exact nomatch hok.symm.trans hroot

/-! ## Operations that fail without a trace -/

/-- Whether a trace is another one, apart from ids that were issued. -/
def Spares (t u : Trace) : Prop := ∃ n, u = t.issue n

theorem Spares.refl (t : Trace) : Spares t t := ⟨t.editor.issued, rfl⟩

theorem Spares.issue (t : Trace) (n : Nat) : Spares t (t.issue n) := ⟨n, rfl⟩

/-- Replacing the whole state fails only if the new one is not valid. -/
theorem restore_failsTo (document : Updates) (ht : t.editor.core.Anchored) :
    FailsTo (Spares t) (restore document) t := by
  refine FailsTo.check_bind (Spares.issue t) fun s _ => ?_
  extract_lets names rest
  have hrest : ∀ {u : Trace}, u.editor.core.Anchored → FailsTo (Spares t) (rest ()) u := by
    intro u hu
    exact FailsTo.change_bind
      (((completes_writeCurrent _).bind fun _ => completes_changed).failsTo hu)
  clear_value names
  cases names with
  | none => exact hrest ht
  | some named =>
      refine FailsTo.change_bind (hrest ?_)
      show (ite _ _ _ : Editor).core.Anchored
      split
      · exact ht
      · exact ht

/-- Adding a layer fails only if the layer is not valid. -/
theorem addLayer_failsTo (document : Value) (ht : t.editor.core.Anchored) :
    FailsTo (Spares t) (addLayer document) t := by
  refine FailsTo.check_bind (Spares.issue t) fun l _ => FailsTo.recordBy_bind ?_
  exact ((completes_updateLayers _).bind fun _ => completes_changed.bind fun _ =>
    Completes.pure l).failsTo ht

/-- Updating a layer fails only before anything changes. -/
theorem updateLayer_failsTo (id : String) (u : LayerUpdates) (recorded : Bool) :
    FailsTo (Spares t) (updateLayer id u recorded) t := by
  refine FailsTo.check_bind (Spares.issue t) fun preset _ => ?_
  refine FailsTo.view_bind (fun _ _ => Spares.issue t _) fun found hfound => ?_
  cases found with
  | none => exact FailsTo.pure ()
  | some l =>
      refine FailsTo.idle_bind (idle_updatedLayer l u preset) (fun n => Spares.issue t n)
        fun updated n => ?_
      have hreplace : Triple (HasLayer id)
          (do
            replaceLayer id fun _ => updated
            changed) (fun _ e => e.core.Anchored) fun _ => False :=
        Triple.bind (total_replaceLayer id _) fun _ => completes_changed
      cases recorded with
      | true => exact FailsTo.recordBy_bind (FailsTo.of_total hreplace ⟨l, hfound⟩)
      | false => exact FailsTo.of_total hreplace ⟨l, hfound⟩

/-- A new order is refused before anything changes. -/
theorem reorder_failsTo (ids : List String) (ht : t.editor.core.Anchored) :
    FailsTo (Spares t) (reorder ids) t := by
  refine FailsTo.view_bind (fun _ _ => Spares.refl t) fun layers _ => FailsTo.recordBy_bind ?_
  exact ((completes_updateLayers _).bind fun _ => completes_changed).failsTo ht

/-- Only a layer that is there is selected. -/
theorem select_failsTo (id : Option String) : FailsTo (Spares t) (select id) t := by
  unfold select
  extract_lets rest
  have hrest : FailsTo (Spares t) (rest ()) t := fun _ _ h => nomatch h
  cases id with
  | none => exact hrest
  | some id =>
      refine FailsTo.view_bind (fun _ _ => Spares.refl t) fun found _ => ?_
      cases found with
      | none =>
          intro x u h
          obtain rfl : t = u := congrArg Prod.snd h
          exact Spares.refl t
      | some l => exact hrest

/-- A switch fails only if there is no such layer, or if the path to it leads elsewhere. -/
theorem switchContext_failsTo (id : Option String)
    (ht : ∀ d, t.editor.destination id = .ok (some d) → t.editor.root.Resolves d.path) :
    FailsTo (Spares t) (switchContext id) t := by
  refine FailsTo.view_bind (fun _ _ => Spares.refl t) fun found hfound => ?_
  cases found with
  | none => exact FailsTo.pure ()
  | some d =>
      exact FailsTo.recordBy_bind (FailsTo.change_bind (completes_changed.failsTo (ht d hfound)))

/-- An image is put in place of the base image. -/
theorem total_swapBase (imagePath : String) (size : Size) {finish : Unit → Edit Unit}
    (hfinish : ∀ u, Completes (finish u)) :
    Triple (·.path = [])
      (do
        Edit.change fun e => { e with imagePath, size }
        let u ← Edit.change fun e => { e with root := e.identified e.root.withoutCrop }
        finish u)
      (fun _ e => e.core.Anchored) fun _ => False := by
  refine Triple.bind (R := fun _ e => e.path = []) (Triple.change fun _ => id) fun _ =>
    Triple.bind (Triple.change fun e he => ?_) hfinish
  show State.Resolves _ e.path
  rw [he]
  exact State.resolves_nil _

/-- An image is put in place of that of the layer being edited. -/
theorem total_swapLayer (imagePath : String) (size : Size) {finish : Unit → Edit Unit}
    (hfinish : ∀ u, Completes (finish u)) {e : Editor} (he : e.core.Anchored)
    (hpath : e.path ≠ []) :
    Triple (· = e)
      (do
        let l ← Edit.view currentLayer
        let u ← Edit.mapRoot fun root =>
          root.replaceLayerAt e.path (swapImage imagePath size (some (swappedState l size)))
        finish u)
      (fun _ e => e.core.Anchored) fun _ => False := by
  refine Triple.bind (R := fun _ e' => e' = e) (Triple.view (fun _ _ he' _ => he') ?_)
    fun l => Triple.bind (Triple.mapRoot ?_ ?_) hfinish
  · rintro e' x rfl hx
    obtain ⟨l, hl⟩ := Option.isSome_iff_exists.mp ((State.isSome_layerAt? hpath).mpr he)
    unfold currentLayer at hx
    rw [show e'.root.layerAt? e'.path = some l from hl] at hx
    cases hx
  · rintro e' root rfl hroot
    exact State.resolves_replaceLayerAt
      (f := swapImage imagePath size (some (swappedState l size))) (fun _ => rfl) hroot
  · rintro e' x rfl hroot
    obtain ⟨root, hok⟩ := State.Resolves.exists_replaceLayerAt hpath he
      (swapImage imagePath size (some (swappedState l size)))
    exact nomatch hok.symm.trans hroot

/-- Another image is refused before anything changes. -/
theorem replaceImage_failsTo (imagePath : String) (dimensions : Value) (id : Option String)
    (ht : t.editor.core.Anchored) :
    FailsTo (Spares t) (replaceImage imagePath dimensions id) t := by
  refine FailsTo.check_bind (Spares.issue t) fun size _ => ?_
  extract_lets finish rest
  have hfinish : ∀ u, Completes (finish u) := fun _ => completes_changed
  cases id with
  | none =>
      show FailsTo (Spares t) (recordBy History.checkpoint >>= _) _
      refine FailsTo.recordBy_bind (FailsTo.view_bind (fun _ h => nomatch h) fun e he => ?_)
      cases he
      show FailsTo (Spares t) (ite _ _ _) _
      split
      · rename_i hroot
        exact FailsTo.of_total (total_swapBase imagePath size hfinish) (List.isEmpty_iff.mp hroot)
      · rename_i hroot
        exact FailsTo.of_total (total_swapLayer imagePath size hfinish ht
          fun h => hroot (List.isEmpty_iff.mpr h)) rfl
  | some id =>
      refine FailsTo.view_bind (fun _ _ => Spares.issue t _) fun found hfound => ?_
      cases found with
      | none =>
          intro x u h
          obtain rfl : t.issue _ = u := congrArg Prod.snd h
          exact Spares.issue t _
      | some l =>
          show FailsTo (Spares t) (recordBy History.checkpoint >>= _) _
          refine FailsTo.recordBy_bind (FailsTo.view_bind (fun _ h => nomatch h) fun e he => ?_)
          cases he
          exact FailsTo.of_total (Triple.bind (total_replaceLayer id _) hfinish) ⟨l, hfound⟩

/-! ## Refused settings -/

/-- The editor with the mark of the crop mode that changes give. -/
def marked (e : Editor) (cs : Changes) : Editor :=
  { e with visualCrop := ((cs.find? .visualCropEnabled).map Value.isSomething).getD e.visualCrop }

/-- The changes of settings among changes, completed by the ratio that is kept. -/
def completed (e : Editor) (cs : Changes) (keepRatio : Bool) : Except Failure Changes :=
  let cs := ((cs.drop .visualCropEnabled).drop .imagePath).drop .originalDimensions
  if keepRatio && e.aspectLocked then do cs.keepRatio (← e.ratio) else .ok cs

/-- Whether changes get as far as to be recorded. -/
def captures (e : Editor) (cs : Changes) (recorded keepRatio : Bool) : Bool :=
  recorded && (e.completed cs keepRatio).toOption.isSome

/-- What changes leave that are not valid together with the settings: the mark is set, and if they
were to be recorded the capture is taken. -/
def halfUpdated (e : Editor) (cs : Changes) (recorded keepRatio : Bool) (n : Nat) : Trace :=
  if e.captures cs recorded keepRatio then
    ⟨{ e.marked cs with history := (e.history.record e.root).1, issued := n },
      [.history .restartWindow]⟩
  else ⟨{ e.marked cs with issued := n }, []⟩

/-- Whether a trace is what updates leave that were read and then refused. -/
def HalfUpdates (e : Editor) (updates : Updates) (recorded keepRatio : Bool) (u : Trace) : Prop :=
  ∃ cs n, (updates.changes.run e.issued).1 = .ok cs ∧ u = e.halfUpdated cs recorded keepRatio n

/-- Once the state is found only the merge can fail. -/
theorem merge_failsTo {R : Trace → Prop} (cs : Changes) (h : ∀ n, R (t.issue n)) :
    FailsTo R
      (do
        let s ← Edit.view current
        let merged ← Edit.check (s.merged cs)
        writeCurrent merged
        changed) t := by
  refine FailsTo.view_bind (fun _ _ => h t.editor.issued) fun s hs => ?_
  refine FailsTo.check_bind h fun merged _ => ?_
  refine ((completes_writeCurrent merged).bind fun _ => completes_changed).failsTo ?_
  show State.Resolves _ _
  unfold current at hs
  unfold State.Resolves
  cases hstate : t.editor.root.stateAt? t.editor.path with
  | none =>
      rw [hstate] at hs
      cases hs
  | some s => exact Option.isSome_iff_exists.mpr ⟨s, hstate⟩

/-- Changes of settings that are refused once they were read leave their mark, and their capture
if they were to be recorded. -/
theorem update_failsTo (e : Editor) (updates : Updates) (recorded keepRatio : Bool) :
    FailsTo (fun u => Spares ⟨e, []⟩ u ∨ e.HalfUpdates updates recorded keepRatio u)
      (update updates recorded keepRatio) ⟨e, []⟩ := by
  refine FailsTo.check_bind (fun n => .inl (Spares.issue _ n)) fun cs hcs => ?_
  extract_lets kept noted
  -- What happens once the mark is set, whether or not the changes give one.
  have hnoted : ∀ n, FailsTo
      (fun u => Spares ⟨e, []⟩ u ∨ e.HalfUpdates updates recorded keepRatio u) (noted ())
      ⟨{ e.marked cs with issued := n }, []⟩ := by
    intro n
    refine FailsTo.view_bind (fun x hx => .inr ⟨cs, n, hcs, ?_⟩) fun changes hchanges => ?_
    -- Without a ratio to keep, the changes fail before the capture.
    · have hx : e.completed cs keepRatio = .error x := hx
      have hcaptures : ¬ e.captures cs recorded keepRatio = true := by
        unfold captures
        rw [hx]
        simp [Except.toOption]
      rw [halfUpdated, if_neg hcaptures]
    · have hchanges : e.completed cs keepRatio = .ok changes := hchanges
      have hcaptures : e.captures cs recorded keepRatio = recorded := by
        unfold captures
        rw [hchanges]
        exact Bool.and_true recorded
      cases recorded with
      | true =>
          refine FailsTo.recordBy_bind (merge_failsTo changes fun k => .inr ⟨cs, k, hcs, ?_⟩)
          rw [halfUpdated, if_pos hcaptures]
          rfl
      | false =>
          refine merge_failsTo changes fun k => .inr ⟨cs, k, hcs, ?_⟩
          rw [halfUpdated, if_neg (by rw [hcaptures]; decide)]
          rfl
  split
  · rename_i v hv
    refine FailsTo.change_bind ?_
    have hmark : e.marked cs = { e with visualCrop := v.isSomething } := by
      rw [marked, hv]
      rfl
    have hrest := hnoted (updates.changes.run e.issued).2
    rw [hmark] at hrest
    exact hrest
  · rename_i hv
    have hmark : e.marked cs = e := by
      rw [marked, hv]
      rfl
    have hrest := hnoted (updates.changes.run e.issued).2
    rw [hmark] at hrest
    exact hrest

/-! ## What failures leave -/

/-- Whether a command is one that can refuse what it is given. -/
def mayRefuse : Command → Bool
  | .update .. | .restore _ | .addLayer _ | .updateLayer .. | .reorder _ | .select _
  | .switchContext _ | .replaceImage .. => true
  | _ => false

/-- Whether the context, or the one that a command switches to, is not in the tree. -/
def Astray (e : Editor) (c : Command) : Prop :=
  ¬ e.core.Anchored ∨
    ∃ id d, c = .switchContext id ∧ e.destination id = .ok (some d) ∧ ¬ e.root.Resolves d.path

theorem failsTo_answerDone {R : Trace → Prop} {edit : Edit Unit} (h : FailsTo R edit t) :
    FailsTo R (carryOut.answerDone edit) t :=
  h.bind fun _ _ _ => FailsTo.pure _

/-- A command that can refuse what it is given fails without a trace, unless it changes settings. -/
theorem carryOut_failsTo {c : Command} (hc : mayRefuse c = true) (ha : ¬ t.editor.Astray c)
    (hupdate : ∀ updates recorded keepRatio, c ≠ .update updates recorded keepRatio) :
    FailsTo (Spares t) (carryOut c) t := by
  unfold Astray at ha
  rw [not_or, not_not] at ha
  obtain ⟨ht, htarget⟩ := ha
  cases c with
  | update updates recorded keepRatio => exact absurd rfl (hupdate updates recorded keepRatio)
  | restore document => exact failsTo_answerDone (restore_failsTo document ht)
  | addLayer document => exact (addLayer_failsTo document ht).map
  | updateLayer id updates recorded =>
      exact failsTo_answerDone (updateLayer_failsTo id updates recorded)
  | reorder ids => exact failsTo_answerDone (reorder_failsTo ids ht)
  | select id => exact failsTo_answerDone (select_failsTo id)
  | switchContext id =>
      refine failsTo_answerDone (switchContext_failsTo id fun d hd => ?_)
      by_contra hlost
      exact htarget ⟨id, d, rfl, hd, hlost⟩
  | replaceImage imagePath dimensions id =>
      exact failsTo_answerDone (replaceImage_failsTo imagePath dimensions id ht)
  | _ => cases hc

/-- As long as the ids in the tree stay distinct nothing leads out of it. -/
theorem not_astray_of_distinctIds {e : Editor} (he : e.core.Anchored) (hids : e.root.DistinctIds)
    (c : Command) : ¬ e.Astray c := by
  rintro (hlost | ⟨id, d, -, hd, hlost⟩)
  · exact hlost he
  · exact hlost (resolves_destination he hids hd)

end Editor

namespace Session

/-- The session that changes leave which are not valid together with the settings: the mark of the
crop mode is set, and if the changes were to be recorded the capture is taken and the pause after
it begins anew. -/
def halfUpdated (s : Session Editor) (cs : Changes) (recorded keepRatio : Bool) (n : Nat) :
    Session Editor :=
  let e := { s.subject.marked cs with issued := n }
  if s.subject.captures cs recorded keepRatio then
    ({ s with
      subject := { e with history := (e.history.record e.root).1 } }).restartHistoryWindow
  else { s with subject := e }

theorem takeSubject_halfUpdated (s : Session Editor) (cs : Changes) (recorded keepRatio : Bool)
    (n : Nat) :
    s.takeSubject (s.subject.halfUpdated cs recorded keepRatio n).editor
      (s.subject.halfUpdated cs recorded keepRatio n).effects =
        s.halfUpdated cs recorded keepRatio n := by
  unfold Editor.halfUpdated halfUpdated
  split
  · rfl
  · rfl

/-- **What an operation that fails changes.**  In a session whose editor was reached by any moves,
making a template changes nothing.  A command that can refuse what it is given, and does, leaves
the whole session as it was, apart from ids that it issued.  There is one exception: changes of
settings that could be read leave the mark of the crop mode that they give, and if they were to be
recorded and a ratio to be kept was found, the capture and the pause.  A command can fail otherwise
only if the context or the one switched to is not in the tree, for which some list of layers had to
hold two with one id. -/
theorem leaves_of_failure (settings : Settings) (imagePath : String) (size : Size)
    (bounds : Option Size) (moves : List Editor.Move) (s : Session Editor)
    (hs : s.subject = (Editor.start settings imagePath size bounds).after moves) :
    (∀ name mode description,
      (s.carryOut (Edit.view fun e => e.exportTemplate name mode description)).2 = s) ∧
    ∀ c f, Editor.mayRefuse c = true → (s.carryOut (Editor.carryOut c)).1 = .error f →
      (∃ n, (s.carryOut (Editor.carryOut c)).2 =
        { s with subject := { s.subject with issued := n } }) ∨
      (∃ updates recorded keepRatio cs n, c = .update updates recorded keepRatio ∧
        (updates.changes.run s.subject.issued).1 = .ok cs ∧
        (s.carryOut (Editor.carryOut c)).2 = s.halfUpdated cs recorded keepRatio n) ∨
      (s.subject.Astray c ∧ ∃ k,
        ¬ ((Editor.start settings imagePath size bounds).after (moves.take k)).root.DistinctIds) := by
  refine ⟨fun _ _ _ => rfl, fun c f hc hfail => ?_⟩
  have hrun : ∀ u, Editor.carryOut c ⟨s.subject, []⟩ = (.error f, u) →
      (s.carryOut (Editor.carryOut c)).2 = s.takeSubject u.editor u.effects := by
    intro u hu
    unfold carryOut Edit.run
    rw [hu]
  obtain ⟨u, hu⟩ : ∃ u, Editor.carryOut c ⟨s.subject, []⟩ = (.error f, u) :=
    ⟨_, Prod.ext hfail rfl⟩
  rw [hrun u hu]
  by_cases hupdate : ∃ updates recorded keepRatio, c = .update updates recorded keepRatio
  · obtain ⟨updates, recorded, keepRatio, rfl⟩ := hupdate
    rcases Editor.failsTo_answerDone
      (Editor.update_failsTo s.subject updates recorded keepRatio) f u hu with
      ⟨n, rfl⟩ | ⟨cs, n, hcs, rfl⟩
    · exact .inl ⟨n, rfl⟩
    · exact .inr (.inl ⟨updates, recorded, keepRatio, cs, n, rfl, hcs,
        takeSubject_halfUpdated s cs recorded keepRatio n⟩)
  · by_cases ha : s.subject.Astray c
    · refine .inr (.inr ⟨ha, ?_⟩)
      -- Had the ids stayed distinct, the context would have stayed in the tree to the end.
      by_contra hids
      rw [not_exists] at hids
      have hids : ∀ k, ((Editor.start settings imagePath size bounds).after
          (moves.take k)).root.DistinctIds := fun k => not_not.mp (hids k)
      have he := Editor.anchored_after (Editor.anchored_start settings imagePath size bounds) hids
      have hlast := hids moves.length
      rw [List.take_length] at hlast
      rw [hs] at ha
      exact Editor.not_astray_of_distinctIds he hlast c ha
    · obtain ⟨n, rfl⟩ := Editor.carryOut_failsTo (t := ⟨s.subject, []⟩) hc ha
        (fun updates recorded keepRatio h => hupdate ⟨updates, recorded, keepRatio, h⟩) f u hu
      exact .inl ⟨n, rfl⟩

/-- The mark of the crop mode along with a width that is no number. -/
def listWidth : Editor.Updates :=
  ⟨.object [("visualCropEnabled", .bool true), ("width", .list [])], false⟩

set_option maxRecDepth 4000 in
theorem refused_listWidth (settings : Settings) :
    ((Editor.carryOut (.update listWidth true false)).run
      (Editor.start settings "base.png" ⟨100, 100⟩ none)).result.toOption.isNone = true := by
  cbv

set_option maxRecDepth 4000 in
theorem marked_listWidth (settings : Settings) :
    ((Editor.carryOut (.update listWidth true false)).run
      (Editor.start settings "base.png" ⟨100, 100⟩ none)).editor.visualCrop = true := by
  cbv

/-- A width that is no number is refused, but the mark of the crop mode that came with it stays. -/
theorem leaves_of_failure_listWidth :
    let s := (Editor.start {} "base.png" ⟨100, 100⟩ none).session .echo false
    let after := s.carryOut (Editor.carryOut (.update listWidth true false))
    s.subject.visualCrop = false ∧ (∃ f, after.1 = .error f) ∧
      after.2.subject.visualCrop = true ∧ ∃ cs n, after.2 = s.halfUpdated cs true false n := by
  intro s after
  have hmarked : after.2.subject.visualCrop = true := by
    show (s.takeSubject _ _).subject.visualCrop = true
    rw [subject_takeSubject]
    exact marked_listWidth {}
  obtain ⟨f, hf⟩ : ∃ f, after.1 = .error f := by
    have hrefused : after.1.toOption.isNone = true := refused_listWidth {}
    cases hafter : after.1 with
    | error f => exact ⟨f, rfl⟩
    | ok a =>
        rw [hafter] at hrefused
        cases hrefused
  refine ⟨rfl, ⟨f, hf⟩, hmarked, ?_⟩
  obtain ⟨-, hcommands⟩ := leaves_of_failure {} "base.png" ⟨100, 100⟩ none [] s rfl
  rcases hcommands (.update listWidth true false) f rfl hf with
    ⟨n, hn⟩ | ⟨updates, recorded, keepRatio, cs, n, hc, -, hn⟩ | ⟨-, k, hids⟩
  · have hsame : after.2.subject.visualCrop = false := congrArg (·.subject.visualCrop) hn
    exact absurd (hmarked.symm.trans hsame) (by decide)
  · cases hc
    exact ⟨cs, n, hn⟩
  · rw [List.take_nil] at hids
    exact absurd trivial hids

end Session

end Retouch
