/-
  What operations have the previews do.

  What the preview shows depends on the tree, the context, the base image and the mark of the crop
  mode.  An operation with a result either leaves all of it alone and asks for no preview, or it
  asks for one at its end (`carryOut_told`).  Switching to the crop mode does not wait for the
  pause (`setVisualCrop_told`).  None of this looks at what an operation does to the tree: whatever
  that is, a preview is asked for afterwards.
-/
import Retouch.Editor.Canvas
import Retouch.Proofs.Editor.Steps

namespace Retouch

/-- What effects ask of the previews. -/
def Editor.orders (effects : List Editor.Effect) : List Preview.Order :=
  effects.filterMap fun
    | .preview o => some o
    | _ => none

theorem Editor.orders_append (es es' : List Editor.Effect) :
    Editor.orders (es ++ es') = Editor.orders es ++ Editor.orders es' := List.filterMap_append ..

theorem Editor.orders_history (es : List History.Effect) :
    Editor.orders (es.map .history) = [] := by
  induction es with
  | nil => rfl
  | cons e es ih => exact ih

namespace Edit

open Editor (Trace orders orders_append orders_history)

variable {α β : Type}

/-! ## Orders -/

/-- Whether an operation gives the previews some orders, if it has a result. -/
def Gives (os : List Preview.Order) (m : Edit α) : Prop :=
  ∀ t a u, m t = (.ok a, u) → orders u.effects = orders t.effects ++ os

/-- Whether an operation leaves what the preview shows and gives no order, if it has a result. -/
def Still (m : Edit α) : Prop :=
  ∀ t a u, m t = (.ok a, u) →
    u.editor.previewAsk = t.editor.previewAsk ∧ orders u.effects = orders t.effects

/-- Whether an operation with a result leaves what the preview shows or asks for a preview. -/
def Tells (m : Edit α) : Prop :=
  ∀ t a u, m t = (.ok a, u) →
    (u.editor.previewAsk = t.editor.previewAsk ∧ orders u.effects = orders t.effects) ∨
      orders u.effects = orders t.effects ++ [.schedule]

theorem Still.gives {m : Edit α} (h : Still m) : Gives [] m := fun t a u hrun =>
  (h t a u hrun).2.trans (List.append_nil _).symm

theorem Still.tells {m : Edit α} (h : Still m) : Tells m := fun t a u hrun => .inl (h t a u hrun)

theorem Gives.tells {m : Edit α} (h : Gives [.schedule] m) : Tells m := fun t a u hrun =>
  .inr (h t a u hrun)

/-- An operation in two steps with a result has one after each. -/
theorem of_bind_run {m : Edit α} {f : α → Edit β} {t u : Trace} {b : β}
    (h : (m >>= f) t = (.ok b, u)) : ∃ a v, m t = (.ok a, v) ∧ f a v = (.ok b, u) := by
  have h : ExceptT.bindCont f (m t).1 (m t).2 = (.ok b, u) := h
  cases hout : m t with
  | mk r v =>
      rw [hout] at h
      cases r with
      | error x => cases h
      | ok a => exact ⟨a, v, rfl, h⟩

theorem Gives.bind {os os' : List Preview.Order} {m : Edit α} {f : α → Edit β} (hm : Gives os m)
    (hf : ∀ a, Gives os' (f a)) : Gives (os ++ os') (m >>= f) := by
  intro t b u hrun
  obtain ⟨a, v, hfirst, hrest⟩ := of_bind_run hrun
  rw [hf a v b u hrest, hm t a v hfirst, List.append_assoc]

theorem Still.bind {m : Edit α} {f : α → Edit β} (hm : Still m) (hf : ∀ a, Still (f a)) :
    Still (m >>= f) := by
  intro t b u hrun
  obtain ⟨a, v, hfirst, hrest⟩ := of_bind_run hrun
  obtain ⟨hask, horders⟩ := hm t a v hfirst
  obtain ⟨hask', horders'⟩ := hf a v b u hrest
  exact ⟨hask'.trans hask, horders'.trans horders⟩

theorem Still.bind_tells {m : Edit α} {f : α → Edit β} (hm : Still m) (hf : ∀ a, Tells (f a)) :
    Tells (m >>= f) := by
  intro t b u hrun
  obtain ⟨a, v, hfirst, hrest⟩ := of_bind_run hrun
  obtain ⟨hask, horders⟩ := hm t a v hfirst
  rcases hf a v b u hrest with ⟨hask', horders'⟩ | horders'
  · exact .inl ⟨hask'.trans hask, horders'.trans horders⟩
  · rw [horders] at horders'
    exact .inr horders'

theorem Tells.map {f : α → β} {m : Edit α} (hm : Tells m) : Tells (f <$> m) := by
  intro t b u hrun
  rw [map_eq_pure_bind] at hrun
  obtain ⟨a, v, hfirst, hrest⟩ := of_bind_run hrun
  cases hrest
  exact hm t a _ hfirst

/-! ## Steps -/

theorem Still.fail (f : Failure) : Still (Edit.fail f : Edit α) := fun _ _ _ hrun => nomatch hrun

/-- The preview does not depend on the ids issued. -/
theorem Idle.still {m : Edit α} (hm : Idle m) : Still m := by
  intro t a u hrun
  obtain ⟨n, hn⟩ := hm t
  obtain rfl : u = t.issue n := by rw [← hn, hrun]
  exact ⟨rfl, rfl⟩

theorem Still.pure (a : α) : Still (Pure.pure a : Edit α) := (Idle.pure a).still

theorem Still.view (f : Editor → Except Failure α) : Still (Edit.view f) := (Idle.view f).still

theorem Still.check (c : Check α) : Still (Edit.check c) := (Idle.check c).still

/-- The preview does not depend on the history. -/
theorem Still.rewind (f : History → State → α × History × List History.Effect) :
    Still (Edit.rewind f) := by
  intro t a u hrun
  cases hrun
  refine ⟨rfl, ?_⟩
  rw [orders_append, orders_history, List.append_nil]

theorem Still.recordBy (f : History → State → History × List History.Effect) :
    Still (Edit.recordBy f) :=
  Still.rewind _

theorem Still.change {f : Editor → Editor} (h : ∀ e, (f e).previewAsk = e.previewAsk) :
    Still (Edit.change f) := by
  intro t a u hrun
  cases hrun
  exact ⟨h t.editor, rfl⟩

theorem Gives.change (f : Editor → Editor) : Gives [] (Edit.change f) := by
  intro t a u hrun
  cases hrun
  exact (List.append_nil _).symm

theorem Gives.mapRoot (f : State → Except Failure State) : Gives [] (Edit.mapRoot f) :=
  (Still.view _).gives.bind fun _ => Gives.change _

theorem Gives.ask (effects : List Editor.Effect) : Gives (orders effects) (Edit.ask effects) := by
  intro t a u hrun
  cases hrun
  exact orders_append _ _

/-- Orders come after steps that give none. -/
theorem Gives.after {os : List Preview.Order} {m : Edit α} {f : α → Edit β} (hm : Gives [] m)
    (hf : ∀ a, Gives os (f a)) : Gives os (m >>= f) := hm.bind hf

end Edit

namespace Editor

open Edit

/-! ## Steps that operations share -/

theorem still_announce : Still announce := by
  refine (Still.view _).bind fun listening => ?_
  cases listening with
  | false => exact Still.pure ()
  | true =>
      refine (Still.view _).bind fun s t a u hrun => ?_
      cases hrun
      refine ⟨rfl, ?_⟩
      rw [orders_append]
      exact List.append_nil _

theorem gives_changed : Gives [.schedule] changed :=
  still_announce.gives.after fun _ => Gives.ask _

theorem gives_writeCurrent (s : State) : Gives [] (writeCurrent s) :=
  (Still.view _).gives.after fun _ => Gives.mapRoot _

theorem gives_updateLayers (f : List Layer → List Layer) : Gives [] (updateLayers f) :=
  (Still.view _).gives.after fun _ => Gives.mapRoot _

theorem gives_replaceLayer (id : String) (f : Layer → Layer) : Gives [] (replaceLayer id f) :=
  (Still.view _).gives.after fun _ => Gives.mapRoot _

/-! ## Operations -/

theorem gives_startOver (listening : Bool) : Gives [.reset, .schedule] (startOver listening) :=
  (Gives.change _).after fun _ => (Still.recordBy _).gives.after fun _ => Gives.ask _

theorem gives_update (updates : Updates) (recorded keepRatio : Bool) :
    Gives [.schedule] (update updates recorded keepRatio) := by
  refine (Still.check _).gives.after fun cs => ?_
  extract_lets kept noted
  have hmerge : ∀ changes, Gives [.schedule] (do
      let s ← Edit.view current
      let merged ← Edit.check (s.merged changes)
      writeCurrent merged
      changed) := fun _ =>
    (Still.view _).gives.after fun _ => (Still.check _).gives.after fun _ =>
      (gives_writeCurrent _).after fun _ => gives_changed
  have hnoted : Gives [.schedule] (noted ()) := by
    refine (Still.view _).gives.after fun changes => ?_
    cases recorded with
    | true => exact (Still.recordBy _).gives.after fun _ => hmerge changes
    | false => exact hmerge changes
  split
  · exact (Gives.change _).after fun _ => hnoted
  · exact hnoted

theorem gives_restore (document : Updates) : Gives [.schedule] (restore document) := by
  refine (Still.check _).gives.after fun s => ?_
  extract_lets names rest
  have hrest : Gives [.schedule] (rest ()) :=
    (Gives.change _).after fun _ => (gives_writeCurrent _).after fun _ => gives_changed
  clear_value names
  cases names with
  | none => exact hrest
  | some named => exact (Gives.change _).after fun _ => hrest

theorem gives_resetParams : Gives [.schedule] resetParams :=
  (Still.recordBy _).gives.after fun _ => (Still.view _).gives.after fun _ =>
    (Gives.change _).after fun _ => (gives_writeCurrent _).after fun _ => gives_changed

/-- The lock on the ratio does not show. -/
theorem still_toggleAspect : Still toggleAspect := by
  have hflip : Still (Edit.change fun e => { e with aspectLocked := !e.aspectLocked }) :=
    Still.change fun _ => rfl
  refine hflip.bind fun _ => (Still.view _).bind fun s => (Still.view _).bind fun e => ?_
  extract_lets rest
  have hrest : ∀ u, Still (rest u) := fun _ => Still.pure _
  split
  · refine (Still.view _).bind fun ratio => ?_
    cases ratio with
    | some r =>
        refine Still.bind (Still.change ?_) hrest
        exact fun _ => rfl
    | none => exact hrest ()
  · refine Still.bind (Still.change ?_) hrest
    exact fun _ => rfl

theorem gives_restoreTree (tree : State) : Gives [.schedule] (restoreTree tree) := by
  refine (Gives.change _).after fun _ => (Still.view _).gives.after fun selected => ?_
  extract_lets rest
  have hrest : ∀ u, Gives [.schedule] (rest u) := fun _ => gives_changed
  cases selected with
  | none => exact hrest ()
  | some id =>
      refine (Still.view _).gives.after fun found => ?_
      cases found with
      | some l => exact hrest ()
      | none => exact (Gives.change _).after hrest

theorem tells_travel (f : History → State → Option State × History × List History.Effect) :
    Tells (travel f) := by
  refine (Still.rewind f).bind_tells fun tree => ?_
  cases tree with
  | none => exact (Still.pure false).tells
  | some tree =>
      exact ((gives_restoreTree tree).bind fun _ => (Still.pure true).gives).tells

theorem gives_addLayer (document : Value) : Gives [.schedule] (addLayer document) :=
  (Still.check _).gives.after fun l => (Still.recordBy _).gives.after fun _ =>
    (gives_updateLayers _).after fun _ => gives_changed.bind fun _ => (Still.pure l).gives

theorem tells_removeLayer (id : String) : Tells (removeLayer id) := by
  refine (Still.view _).bind_tells fun found => ?_
  cases found with
  | none => exact (Still.pure ()).tells
  | some l =>
      have h : Gives [.schedule] (do
          Edit.recordBy History.checkpoint
          updateLayers fun ls => ls.filter (·.id ≠ id)
          Edit.change fun e => if e.selected = some id then { e with selected := none } else e
          changed) :=
        (Still.recordBy _).gives.after fun _ => (gives_updateLayers _).after fun _ =>
          (Gives.change _).after fun _ => gives_changed
      exact h.tells

theorem tells_duplicateLayer (id : String) : Tells (duplicateLayer id) := by
  refine (Still.view _).bind_tells fun found => ?_
  cases found with
  | none => exact (Still.pure none).tells
  | some l =>
      refine (Still.check _).bind_tells fun fresh => (Still.view _).bind_tells fun copy => ?_
      have h : Gives [.schedule] (do
          Edit.recordBy History.checkpoint
          updateLayers (· ++ [copy])
          changed
          return some copy) :=
        (Still.recordBy _).gives.after fun _ => (gives_updateLayers _).after fun _ =>
          gives_changed.bind fun _ => (Still.pure (some copy)).gives
      exact h.tells

theorem tells_updateLayer (id : String) (u : LayerUpdates) (recorded : Bool) :
    Tells (updateLayer id u recorded) := by
  refine (Still.check _).bind_tells fun preset => (Still.view _).bind_tells fun found => ?_
  cases found with
  | none => exact (Still.pure ()).tells
  | some l =>
      refine (idle_updatedLayer l u preset).still.bind_tells fun updated => ?_
      have h : Gives [.schedule] (do
          replaceLayer id fun _ => updated
          changed) := (gives_replaceLayer id _).after fun _ => gives_changed
      cases recorded with
      | true => exact ((Still.recordBy _).gives.after fun _ => h).tells
      | false => exact h.tells

theorem gives_reorder (ids : List String) : Gives [.schedule] (reorder ids) :=
  (Still.view _).gives.after fun _ => (Still.recordBy _).gives.after fun _ =>
    (gives_updateLayers _).after fun _ => gives_changed

/-- The selection does not show. -/
theorem still_select (id : Option String) : Still (select id) := by
  unfold select
  extract_lets rest
  have hrest : ∀ u, Still (rest u) := fun _ => Still.change fun _ => rfl
  cases id with
  | none => exact hrest ()
  | some id =>
      refine (Still.view _).bind fun found => ?_
      cases found with
      | none => exact (Still.fail _).bind hrest
      | some l => exact hrest ()

theorem tells_switchContext (id : Option String) : Tells (switchContext id) := by
  refine (Still.view _).bind_tells fun found => ?_
  cases found with
  | none => exact (Still.pure ()).tells
  | some context =>
      have h : Gives [.schedule] (do
          Edit.recordBy fun h _ => h.flush
          Edit.change fun e =>
            { e with
              context, visualCrop := false, selected := selectionAfter e.path context.path }
          changed) :=
        (Still.recordBy _).gives.after fun _ => (Gives.change _).after fun _ => gives_changed
      exact h.tells

theorem gives_replaceImage (imagePath : String) (dimensions : Value) (id : Option String) :
    Gives [.schedule] (replaceImage imagePath dimensions id) := by
  refine (Still.check _).gives.after fun size => ?_
  extract_lets finish rest
  have hfinish : ∀ u, Gives [.schedule] (finish u) := fun _ => gives_changed
  cases id with
  | none =>
      show Gives _ (Edit.recordBy History.checkpoint >>= _)
      refine (Still.recordBy _).gives.after fun _ => (Still.view _).gives.after fun e => ?_
      show Gives _ (ite _ _ _)
      split
      · exact (Gives.change _).after fun _ => (Gives.change _).after hfinish
      · exact (Still.view _).gives.after fun l => (Gives.mapRoot _).after hfinish
  | some id =>
      have hrest : ∀ u, Gives [.schedule] (rest u) := fun _ =>
        (Still.recordBy _).gives.after fun _ => (Still.view _).gives.after fun _ =>
          (gives_replaceLayer id _).after hfinish
      refine (Still.view _).gives.after fun found => ?_
      cases found with
      | none => exact (Still.fail _).gives.after hrest
      | some l => exact hrest ()

theorem tells_importTemplate (text : String) : Tells (importTemplate text) := by
  have hread : Still (readTemplate text) := by
    intro t a u hrun
    obtain rfl : (readTemplate text t).2 = u := congrArg Prod.snd hrun
    exact ⟨rfl, rfl⟩
  refine hread.bind_tells fun result => ?_
  split
  · exact (Still.pure result).tells
  · rename_i applied _
    have h : Gives [.schedule] (do
        Edit.recordBy History.checkpoint
        Edit.change fun e =>
          { e with
            context := .root, selected := none, visualCrop := false, root := e.identified applied }
        changed
        return result) :=
      (Still.recordBy _).gives.after fun _ => (Gives.change _).after fun _ =>
        gives_changed.bind fun _ => (Still.pure result).gives
    exact h.tells

/-! ## Commands -/

/-- Whether an operation that ended so left what the preview shows, or has it told of the change:
the last order is for a preview, after a pause or at once. -/
def Outcome.Told {α : Type} (o : Outcome α) (e : Editor) : Prop :=
  (o.editor.previewAsk = e.previewAsk ∧
      (orders o.effects = [] ∨ orders o.effects = [.notifyLoaded])) ∨
    (∃ os, orders o.effects = os ++ [.schedule]) ∨ orders o.effects = [.schedule, .flush]

section

variable {α : Type} {m : Edit α} {e : Editor} {a : α}

theorem told_of_tells (h : Tells m) (ha : (m.run e).result = .ok a) : (m.run e).Told e := by
  rcases h ⟨e, []⟩ a _ (Prod.ext ha rfl) with ⟨hask, horders⟩ | horders
  · exact .inl ⟨hask, .inl horders⟩
  · exact .inr (.inl ⟨[], horders⟩)

theorem told_of_gives (os : List Preview.Order) (h : Gives (os ++ [.schedule]) m)
    (ha : (m.run e).result = .ok a) : (m.run e).Told e :=
  .inr (.inl ⟨os, h ⟨e, []⟩ a _ (Prod.ext ha rfl)⟩)

end

theorem gives_answerDone {os : List Preview.Order} {edit : Edit Unit} (h : Gives os edit) :
    Gives os (carryOut.answerDone edit) := by
  have hdone := Gives.bind h fun _ => (Still.pure Command.Answer.done).gives
  rwa [List.append_nil] at hdone

theorem tells_answerDone {edit : Edit Unit} (h : Tells edit) :
    Tells (carryOut.answerDone edit) := by
  show Tells (edit >>= fun _ => Pure.pure Command.Answer.done)
  rw [bind_pure_comp]
  exact h.map

/-- A command that succeeds leaves what the preview shows, or has a preview asked for. -/
theorem carryOut_told {e : Editor} {c : Command} {a : Command.Answer} (hc : c ≠ .destroy)
    (ha : ((carryOut c).run e).result = .ok a) : ((carryOut c).run e).Told e := by
  cases c with
  | destroy => exact absurd rfl hc
  | startOver listening =>
      exact told_of_gives [.reset] (gives_answerDone (gives_startOver listening)) ha
  | update updates recorded keepRatio =>
      exact told_of_tells (tells_answerDone (gives_update updates recorded keepRatio).tells) ha
  | restore document => exact told_of_tells (tells_answerDone (gives_restore document).tells) ha
  | resetParams => exact told_of_tells (tells_answerDone gives_resetParams.tells) ha
  | toggleAspect => exact told_of_tells still_toggleAspect.tells.map ha
  | undo => exact told_of_tells (tells_travel _).map ha
  | redo => exact told_of_tells (tells_travel _).map ha
  | addLayer document => exact told_of_tells (gives_addLayer document).tells.map ha
  | removeLayer id => exact told_of_tells (tells_answerDone (tells_removeLayer id)) ha
  | duplicateLayer id => exact told_of_tells (tells_duplicateLayer id).map ha
  | updateLayer id updates recorded =>
      exact told_of_tells (tells_answerDone (tells_updateLayer id updates recorded)) ha
  | reorder ids => exact told_of_tells (tells_answerDone (gives_reorder ids).tells) ha
  | select id => exact told_of_tells (tells_answerDone (still_select id).tells) ha
  | switchContext id => exact told_of_tells (tells_answerDone (tells_switchContext id)) ha
  | replaceImage imagePath dimensions id =>
      exact told_of_tells (tells_answerDone (gives_replaceImage imagePath dimensions id).tells) ha
  | importTemplate text => exact told_of_tells (tells_importTemplate text).map ha
  | notifyLoaded => exact .inl ⟨rfl, .inr rfl⟩

/-- So does switching the crop mode, where the preview may be asked for at once. -/
theorem setVisualCrop_told {e : Editor} {enabled b : Bool}
    (hb : ((setVisualCrop enabled).run e).result = .ok b) :
    ((setVisualCrop enabled).run e).Told e := by
  have hrun : setVisualCrop enabled ⟨e, []⟩ = (.ok b, (setVisualCrop enabled ⟨e, []⟩).2) :=
    Prod.ext hb rfl
  show Outcome.Told ⟨_, (setVisualCrop enabled ⟨e, []⟩).2.editor,
    (setVisualCrop enabled ⟨e, []⟩).2.effects⟩ e
  -- With a crop the last order is a flush, which no rule above covers: the run is followed step by
  -- step.
  generalize (setVisualCrop enabled ⟨e, []⟩).2 = u at hrun
  unfold setVisualCrop at hrun
  obtain ⟨e', t, hview, hrun⟩ := of_bind_run hrun
  cases hview
  split at hrun
  · cases hrun
    exact .inl ⟨rfl, .inl rfl⟩
  · obtain ⟨_, t, hchange, hrun⟩ := of_bind_run hrun
    cases hchange
    have hchanged : Gives [.schedule] (do changed; return false) :=
      gives_changed.bind fun _ => (Still.pure false).gives
    cases enabled with
    | false => exact .inr (.inl ⟨[], hchanged _ b u hrun⟩)
    | true =>
        obtain ⟨s, t, hview, hrun⟩ := of_bind_run hrun
        obtain rfl := (congrArg Prod.snd hview : _ = t)
        split at hrun
        · cases hrun
          exact .inr (.inr rfl)
        · exact .inr (.inl ⟨[], hchanged _ b u hrun⟩)

end Editor

end Retouch
