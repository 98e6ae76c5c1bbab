/-
  The context is a path in the tree.

  Whatever happens to an editor, what is being edited is part of the tree: operations change the
  tree below the context or keep the layers on its path, undo and redo shorten the path as far as
  they have to, and switches lead to layers.  Only a switch that searches the whole tree needs more
  than that, namely that the layers of a list have distinct ids.

  The canvas below a layer takes arithmetic, which can fail for numbers that have no place in a
  double.  It never fails because a layer is missing.
-/
import Mathlib
import Retouch.Editor.Canvas
import Retouch.Proofs.Editor.Travel
import Retouch.Proofs.Output
import Retouch.Session.Editing

namespace Retouch.Editor

open Edit Editor.Core

/-! ## What can happen to an editor -/

/-- What can happen to an editor: a command, a switch of the crop mode, or the end of the pause
    after changes. -/
inductive Move where
  | command (c : Command)
  | crop (enabled : Bool)
  | pauseOver

/-- The editor after something happened, whether or not it failed. -/
def apply (e : Editor) : Move → Editor
  | .command c => ((carryOut c).run e).editor
  | .crop enabled => ((setVisualCrop enabled).run e).editor
  | .pauseOver => (Subject.pauseOver e).1

/-- The editor after several things happened. -/
def after (e : Editor) (moves : List Move) : Editor := moves.foldl apply e

/-- Whether a move may change the context. -/
def Move.navigates : Move → Bool
  | .command (.startOver _) | .command .undo | .command .redo
  | .command (.switchContext _) | .command (.importTemplate _) => true
  | _ => false

/-- Whether a move goes back or forward in the history. -/
def Move.travels : Move → Bool
  | .command .undo | .command .redo => true
  | _ => false

theorem after_snoc (e : Editor) (moves : List Move) (m : Move) :
    e.after (moves ++ [m]) = (e.after moves).apply m := by
  simp [after]

/-! ## Moves that stay in their context -/

variable {c : Core}

theorem stays_answerDone {edit : Edit Unit}
    (h : Triple (·.core = c) edit (fun _ e => Stays c e.core) fun e => Stays c e.core) :
    Triple (·.core = c) (carryOut.answerDone edit) (fun _ e => Stays c e.core)
      fun e => Stays c e.core :=
  Triple.bind h fun _ => Triple.pure _ fun _ => id

theorem stays_of_keeps {α : Type} {edit : Edit α} (h : Keeps (·.core = c) edit) :
    Triple (·.core = c) edit (fun _ e => Stays c e.core) fun e => Stays c e.core :=
  Triple.conseq h (fun _ => id) (fun _ _ he => Stays.of_eq he) fun _ he => Stays.of_eq he

theorem stays_of_makes {α : Type} {edit : Edit α} {h : History}
    (hm : Triple (·.core = c) edit (fun _ e => Makes h c e.core) fun e => Stays c e.core) :
    Triple (·.core = c) edit (fun _ e => Stays c e.core) fun e => Stays c e.core :=
  hm.post_mono fun _ _ he => he.toStays

theorem stays_of_or_makes {α : Type} {edit : Edit α} {h : History}
    (hm : Triple (·.core = c) edit (fun _ e => e.core = c ∨ Makes h c e.core)
      fun e => Stays c e.core) :
    Triple (·.core = c) edit (fun _ e => Stays c e.core) fun e => Stays c e.core := by
  refine hm.post_mono fun _ _ he => ?_
  rcases he with heq | hmade
  · exact Stays.of_eq heq
  · exact hmade.toStays

/-- Every command but those that navigate stays in its context. -/
theorem stays_carryOut (cmd : Command) (h : Move.navigates (.command cmd) = false) :
    Triple (·.core = c) (carryOut cmd) (fun _ e => Stays c e.core) fun e => Stays c e.core := by
  cases cmd with
  | startOver listening => cases h
  | destroy => exact stays_answerDone (stays_of_keeps keeps_destroy)
  | update updates recorded keepRatio =>
      exact stays_answerDone (stays_of_makes (update_makes updates recorded keepRatio))
  | restore document => exact stays_answerDone (restore_makes document)
  | resetParams => exact stays_answerDone (stays_of_makes resetParams_makes)
  | toggleAspect => exact Triple.map (stays_of_keeps keeps_toggleAspect)
  | undo => cases h
  | redo => cases h
  | addLayer document => exact Triple.map (stays_of_makes (addLayer_makes document))
  | removeLayer id => exact stays_answerDone (stays_of_or_makes (removeLayer_makes id))
  | duplicateLayer id => exact Triple.map (stays_of_or_makes (duplicateLayer_makes id))
  | updateLayer id updates recorded =>
      exact stays_answerDone (stays_of_or_makes (updateLayer_makes id updates recorded))
  | reorder ids => exact stays_answerDone (stays_of_makes (reorder_makes ids))
  | select id => exact stays_answerDone (stays_of_keeps (keeps_select id))
  | switchContext id => cases h
  | replaceImage imagePath dimensions id =>
      exact stays_answerDone
        ((replaceImage_swaps imagePath dimensions id).post_mono fun _ _ hs => hs.1)
  | importTemplate text => cases h
  | notifyLoaded => exact stays_answerDone (stays_of_keeps (Keeps.ask _))

/-- Whatever does not navigate stays in its context, also when it fails. -/
theorem stays_apply (e : Editor) {m : Move} (h : m.navigates = false) :
    Stays e.core (e.apply m).core := by
  cases m with
  | command cmd =>
      exact (stays_carryOut cmd h).of_run (I := fun e' => Stays e.core e'.core) rfl
        (fun _ _ => id) fun _ => id
  | crop enabled =>
      exact (stays_of_keeps (keeps_setVisualCrop enabled)).of_run
        (I := fun e' => Stays e.core e'.core) rfl (fun _ _ => id) fun _ => id
  | pauseOver => exact ⟨rfl, id⟩

/-! ## Switching the context -/

/-- In a tree with distinct ids, a switch from a path of the tree leads to one. -/
theorem resolves_destination {e : Editor} {target : Option String} {d : Context}
    (he : e.core.Anchored) (hids : e.root.DistinctIds)
    (h : e.destination target = .ok (some d)) : e.root.Resolves d.path := by
  cases target with
  | none =>
      have h := Except.ok.inj h
      split at h
      · cases h
      · cases h
        unfold Context.exit
        rw [Context.path_ofPath]
        exact he.of_prefix (List.dropLast_prefix _)
  | some layer =>
      unfold destination at h
      by_cases hopen : e.path.getLast? = some layer
      · simp [hopen] at h
      by_cases habove : e.path.contains layer
      · simp only [hopen, habove, if_true, if_false] at h
        cases h
        rw [Context.path_ofPath]
        exact he.of_prefix (List.take_prefix _ _)
      simp only [hopen, habove, if_false] at h
      obtain ⟨found, hfound, h⟩ := of_bind_eq_ok h
      cases found with
      | some l =>
          cases h
          obtain ⟨s, hs, hl⟩ := of_bind_eq_ok hfound
          unfold Context.enter
          rw [Context.path_ofPath]
          unfold current at hs
          cases hstate : e.root.stateAt? e.path with
          | none => simp [hstate] at hs
          | some t =>
              obtain rfl : t = s := by simpa [hstate] using hs
              exact State.Resolves.snoc hstate (Except.ok.inj hl)
      | none =>
          cases hpath : e.root.findPath? layer with
          | none => simp [hpath] at h
          | some path =>
              simp only [hpath] at h
              cases h
              rw [Context.path_ofPath]
              exact State.resolves_findPath? hids hpath

theorem anchored_switchContext {e : Editor} (target : Option String) (he : e.core.Anchored)
    (hids : e.root.DistinctIds) : ((switchContext target).run e).editor.core.Anchored := by
  by_cases hd : ∃ d, e.destination target = .ok (some d)
  · obtain ⟨d, hd⟩ := hd
    refine (switchContext_core hd).of_run (I := fun e' => e'.core.Anchored) rfl ?_ ?_
    · intro _ e' he'
      rw [he']
      exact resolves_destination he hids hd
    · intro e' he'
      rw [he']
      exact resolves_destination he hids hd
  · -- The target is open already, or there is no such layer.
    have hsame := Keeps.of_run (keeps_switchContext target (e := e)
      fun d hd' => hd ⟨d, hd'⟩) rfl
    rw [hsame]
    exact he

/-! ## Going back and forward -/

/-- After a step in the history the context is the longest start of the path before that leads to
    a layer, which is all of it if there was no entry. -/
theorem path_travel {e : Editor} (he : e.core.Anchored)
    (f : History → State → Option State × History × List History.Effect) :
    ((travel f).run e).editor.path =
      longestValid ((travel f).run e).editor.root e.path := by
  obtain ⟨b, -, hcore⟩ := (travel_core f e).run_total rfl
  cases hfound : (f e.history e.root).1 with
  | none =>
      rw [hfound] at hcore
      have hpath : ((travel f).run e).editor.path = e.path := path_eq hcore.2
      have hroot : ((travel f).run e).editor.root = e.root := congrArg Core.root hcore.2
      rw [hpath, hroot]
      exact (longestValid_of_resolves he).symm
  | some tree =>
      rw [hfound] at hcore
      have hpath := path_eq hcore.2
      have hroot : ((travel f).run e).editor.root = _ := congrArg Core.root hcore.2
      rw [hpath, hroot]
      exact path_withTree _ tree

theorem anchored_of_path_eq {e e' : Editor} (h : e'.path = longestValid e'.root e.path) :
    e'.core.Anchored := by
  show e'.root.Resolves e'.path
  rw [h]
  exact resolves_longestValid _ _

/-- A command leaves the editor that its operation leaves. -/
theorem editor_run_map {α β : Type} (f : α → β) (m : Edit α) (e : Editor) :
    ((f <$> m).run e).editor = (m.run e).editor := by
  rw [map_eq_pure_bind]
  show ((ExceptT.bindCont (fun a => (pure (f a) : Edit β)) (m ⟨e, []⟩).1 :
    StateM Trace (Except Failure β)) (m ⟨e, []⟩).2).2.editor = (m ⟨e, []⟩).2.editor
  cases (m ⟨e, []⟩).1 <;> rfl

theorem editor_run_answerDone (m : Edit Unit) (e : Editor) :
    ((carryOut.answerDone m).run e).editor = (m.run e).editor := by
  have h : carryOut.answerDone m = (fun _ => Command.Answer.done) <$> m :=
    (map_eq_pure_bind (fun _ => Command.Answer.done) m).symm
  rw [h]
  exact editor_run_map _ m e

/-! ## Every move -/

theorem anchored_importTemplate {e : Editor} (text : String) (he : e.core.Anchored) :
    ((importTemplate text).run e).editor.core.Anchored := by
  have hroot : ∀ e' : Editor, e'.core.context = .root → e'.core.Anchored := by
    intro e' hcontext
    unfold Anchored
    rw [hcontext]
    exact State.resolves_nil _
  refine (importTemplate_core text).of_run (I := fun e' => e'.core.Anchored) rfl ?_ ?_
  · rintro _ e' (hsame | ⟨hcontext, -⟩)
    · rw [hsame]
      exact he
    · exact hroot e' hcontext
  · rintro e' (hsame | hcontext)
    · rw [hsame]
      exact he
    · exact hroot e' hcontext

/-- A move keeps the context a path of the tree, if the ids in the tree are distinct. -/
theorem anchored_apply {e : Editor} (m : Move) (he : e.core.Anchored)
    (hids : e.root.DistinctIds) : (e.apply m).core.Anchored := by
  by_cases hm : m.navigates = true
  · match m, hm with
    | .command (.startOver listening), _ =>
        rw [apply, carryOut, editor_run_answerDone]
        refine (startOver_core listening).of_run (I := fun e' => e'.core.Anchored) rfl ?_ ?_
        · intro _ e' he'
          rw [he']
          exact State.resolves_nil _
        · exact fun _ => False.elim
    | .command .undo, _ =>
        rw [apply, carryOut, editor_run_map]
        exact anchored_of_path_eq (path_travel he History.undo)
    | .command .redo, _ =>
        rw [apply, carryOut, editor_run_map]
        exact anchored_of_path_eq (path_travel he History.redo)
    | .command (.switchContext target), _ =>
        rw [apply, carryOut, editor_run_answerDone]
        exact anchored_switchContext target he hids
    | .command (.importTemplate text), _ =>
        rw [apply, carryOut, editor_run_map]
        exact anchored_importTemplate text he
  · exact (stays_apply e (by simpa using hm)).anchored he

/-- The context stays a path of the tree as long as the ids in the tree are distinct. -/
theorem anchored_after {e : Editor} {moves : List Move} (he : e.core.Anchored)
    (hids : ∀ n, (e.after (moves.take n)).root.DistinctIds) :
    (e.after moves).core.Anchored := by
  induction moves generalizing e with
  | nil => exact he
  | cons m moves ih =>
      refine ih (anchored_apply m he (hids 0)) fun n => ?_
      exact hids (n + 1)

theorem path_apply_travels {e : Editor} {m : Move} (he : e.core.Anchored)
    (hm : m.travels = true) : (e.apply m).path = longestValid (e.apply m).root e.path := by
  match m, hm with
  | .command .undo, _ =>
      rw [apply, carryOut, editor_run_map]
      exact path_travel he History.undo
  | .command .redo, _ =>
      rw [apply, carryOut, editor_run_map]
      exact path_travel he History.redo

/-! ## Canvases -/

/-- Along a path of the tree, the canvas of its last layer is missing only if the size of an image
    before it cannot be computed. -/
theorem canvasAlong_error {α : Type} [Scalar α] {s : State} {size : Size} {below : Option Size}
    {path : List String} {f : Failure} (hpath : path ≠ []) (hs : s.Resolves path)
    (h : s.canvasAlong α size below path = .error f) :
    ∃ q t natural canvas, q <+: path ∧ q ≠ path ∧ s.stateAt? q = some t ∧
      t.params.output α natural canvas = .error f := by
  induction path generalizing s size below with
  | nil => exact absurd rfl hpath
  | cons id rest ih =>
      cases rest with
      | nil => exact ⟨[], s, size, below, List.nil_prefix, by simp, rfl, h⟩
      | cons next rest =>
          rw [State.canvasAlong] at h
          · cases hout : s.params.output α size below with
            | error e =>
                rw [hout] at h
                cases h
                exact ⟨[], s, size, below, List.nil_prefix, by simp, rfl, hout⟩
            | ok canvas =>
                rw [hout] at h
                obtain ⟨l, hl, hrest⟩ := State.resolves_cons.mp hs
                simp only [bind, Except.bind, hl] at h
                obtain ⟨q, t, natural, below, hq, hne, ht, hf⟩ := ih (by simp) hrest h
                refine ⟨id :: q, t, natural, below, ?_, ?_, ?_, hf⟩
                · exact List.cons_prefix_cons.mpr ⟨rfl, hq⟩
                · simpa using hne
                · rw [State.stateAt?, hl]
                  exact ht
          · simp

theorem canvas_error {e : Editor} {f : Failure} (he : e.core.Anchored)
    (h : e.canvas = .error f) :
    ∃ q t natural canvas, q <+: e.path ∧ q ≠ e.path ∧ e.root.stateAt? q = some t ∧
      t.params.output Float natural canvas = .error f := by
  unfold canvas State.canvasBelow at h
  split at h
  · cases h
  · rename_i hpath
    have hpath : e.path ≠ [] := by simpa using hpath
    cases hc : e.root.canvasAlong Float e.size none e.path with
    | ok size =>
        rw [hc] at h
        cases h
    | error x =>
        rw [hc] at h
        cases h
        exact canvasAlong_error hpath he hc

/-! ## The context in every reachable editor -/

/-- Whether a path is empty or leads to a layer. -/
def Addresses (root : State) (path : List String) : Prop :=
  path = [] ∨ (root.layerAt? path).isSome

theorem addresses_iff {root : State} {path : List String} :
    Addresses root path ↔ root.Resolves path := by
  unfold Addresses
  by_cases hpath : path = []
  · simp [hpath]
  · simp only [hpath, false_or]
    exact State.isSome_layerAt? hpath

theorem anchored_start (settings : Settings) (imagePath : String) (size : Size)
    (bounds : Option Size) : (start settings imagePath size bounds).core.Anchored :=
  State.resolves_nil _

/-- **The context is always a path in the tree.**  After any moves, failures included, in which the
    ids in the tree stay distinct, the context leads to a layer or is the root.  What is edited is
    found then; the canvas that it lies on is missing only if an image above it is fitted into a
    wanted size and the arithmetic of that has no answer.  Only moves that navigate change the
    context, and a step in the history leaves the longest start of its path that is in the tree. -/
theorem context_is_path (settings : Settings) (imagePath : String) (size : Size)
    (bounds : Option Size) (moves : List Move)
    (hids : ∀ n, ((start settings imagePath size bounds).after (moves.take n)).root.DistinctIds) :
    let e := (start settings imagePath size bounds).after moves
    Addresses e.root e.path ∧
      (∃ s, e.current = .ok s) ∧
      (e.path ≠ [] → ∃ l, e.currentLayer = .ok l) ∧
      (∀ f, e.canvas = .error f →
        (∃ fault, f = .arithmetic fault) ∧
          ∃ q t natural canvas, q <+: e.path ∧ q ≠ e.path ∧ e.root.stateAt? q = some t ∧
            t.params.fitIn = some true ∧ t.params.output Float natural canvas = .error f) ∧
      ∀ m : Move,
        (m.navigates = false → (e.apply m).path = e.path) ∧
          (m.travels = true →
            (e.apply m).path <+: e.path ∧ Addresses (e.apply m).root (e.apply m).path ∧
              ∀ q, q <+: e.path → Addresses (e.apply m).root q → q <+: (e.apply m).path) := by
  intro e
  have he : e.core.Anchored := anchored_after (anchored_start settings imagePath size bounds) hids
  refine ⟨addresses_iff.mpr he, current_of_anchored he, ?_, ?_, fun m => ⟨?_, ?_⟩⟩
  · intro hpath
    obtain ⟨l, hl⟩ := Option.isSome_iff_exists.mp ((State.isSome_layerAt? hpath).mpr he)
    refine ⟨l, ?_⟩
    unfold currentLayer
    rw [show e.root.layerAt? e.path = some l from hl]
  · intro f hf
    obtain ⟨q, t, natural, canvas, hq, hne, ht, hout⟩ := canvas_error he hf
    obtain ⟨hfit, hfault⟩ := Params.output_error hout
    exact ⟨hfault, q, t, natural, canvas, hq, hne, ht, hfit, hout⟩
  · intro hm
    exact congrArg Context.path (stays_apply e hm).context
  · intro hm
    have hpath := path_apply_travels he hm
    refine ⟨?_, addresses_iff.mpr (anchored_of_path_eq hpath), fun q hq hroot => ?_⟩
    · rw [hpath]
      exact longestValid_prefix _ _
    · rw [hpath]
      exact prefix_longestValid hq (addresses_iff.mp hroot)

/-- A layer for one pixel. -/
def pixelLayer : Value :=
  .object
    [("id", .text "dot"), ("imagePath", .text "dot.png"),
      ("originalDimensions", (Size.mk 1 1).write)]

/-- The layer is added and entered. -/
def enterPixel : List Move :=
  [.command (.addLayer pixelLayer), .command (.switchContext (some "dot"))]

theorem path_enterPixel (s : Settings) :
    ((start s "base.png" ⟨100, 100⟩ none).after enterPixel).path = ["dot"] := by
  cbv

theorem distinctIds_enterPixel (s : Settings) (n : Nat) :
    ((start s "base.png" ⟨100, 100⟩ none).after (enterPixel.take n)).root.DistinctIds := by
  match n with
  | 0 => cbv
  | 1 =>
      cbv
      simp
  | n + 2 =>
      rw [List.take_of_length_le (by simp [enterPixel])]
      cbv
      simp

/-- A layer that was added and entered is being edited, and an undo leads up from it or stays. -/
theorem context_is_path_enterPixel :
    let e := (start {} "base.png" ⟨100, 100⟩ none).after enterPixel
    Addresses e.root e.path ∧ (∃ l, e.currentLayer = .ok l) ∧
      (e.apply (.command .undo)).path <+: ["dot"] ∧
      (e.apply .pauseOver).path = ["dot"] := by
  intro e
  have hpath : e.path = ["dot"] := path_enterPixel {}
  obtain ⟨hroot, -, hlayer, -, hmoves⟩ :=
    context_is_path {} "base.png" ⟨100, 100⟩ none enterPixel (distinctIds_enterPixel {})
  refine ⟨hroot, hlayer (by rw [show Editor.path _ = _ from hpath]; simp), ?_, ?_⟩
  · exact hpath ▸ ((hmoves (.command .undo)).2 rfl).1
  · exact hpath ▸ (hmoves .pauseOver).1 rfl

/-- The image is fitted into a wanted width, and the layer is added and entered. -/
def fitPixel (width : Int) : List Move :=
  .command (.update ⟨.object [("fitIn", .bool true), ("width", .int width)], false⟩ false false) ::
    enterPixel

/-- The settings of the image then. -/
def fitParams (width : Int) : Params :=
  { imagePath := some "base.png", originalDimensions := some ⟨100, 100⟩
    width := some width, fitIn := some true }

theorem path_fitPixel (s : Settings) (width : Int) :
    ((start s "base.png" ⟨100, 100⟩ none).after (fitPixel width)).path = ["dot"] := by
  cbv

theorem size_fitPixel (s : Settings) (width : Int) :
    ((start s "base.png" ⟨100, 100⟩ none).after (fitPixel width)).size = ⟨100, 100⟩ := by
  cbv

set_option maxRecDepth 2000 in
theorem root_fitPixel (s : Settings) (width : Int) (n : Nat) :
    ((start s "base.png" ⟨100, 100⟩ none).after ((fitPixel width).take (n + 2))).root =
      ⟨fitParams width, some [⟨⟨"dot", "dot.png", ⟨1, 1⟩, .centered, .centered, 0, .normal, true,
        "Layer"⟩, none⟩]⟩ := by
  match n with
  | 0 => cbv
  | n + 1 =>
      rw [List.take_of_length_le (by simp [fitPixel, enterPixel])]
      cbv

set_option maxRecDepth 2000 in
theorem distinctIds_fitPixel (s : Settings) (width : Int) (n : Nat) :
    ((start s "base.png" ⟨100, 100⟩ none).after ((fitPixel width).take n)).root.DistinctIds := by
  match n with
  | 0 => cbv
  | 1 =>
      have hroot : ((start s "base.png" ⟨100, 100⟩ none).after ((fitPixel width).take 1)).root =
          ⟨fitParams width, none⟩ := by
        cbv
      rw [hroot]
      exact trivial
  | n + 2 =>
      rw [root_fitPixel]
      exact ⟨by simp, trivial, trivial⟩

/-- The canvas is missing if the quotient of the widths has no double. -/
theorem canvas_fitPixel (s : Settings) {width : Int} {fault : Number.Fault} (hwidth : width ≠ 0)
    (h : Number.quotient width 100 = .error fault) :
    ((start s "base.png" ⟨100, 100⟩ none).after (fitPixel width)).canvas =
      .error (.arithmetic fault) := by
  have hscale : fitScale Float ⟨100, 100⟩ (some width) none = .error (.arithmetic fault) := by
    have hquotient : (Scalar.quotient width 100 : Except Number.Fault Float) = .error fault := h
    unfold fitScale
    rw [Option.mapM_some, hquotient]
    rfl
  have hresized : (fitParams width).resized Float ⟨100, 100⟩ none = .error (.arithmetic fault) := by
    have htarget : (fitParams width).target none = (some width, none) := by
      simp [Params.target, fitParams, Params.wanted, hwidth]
    have hsource : (fitParams width).source ⟨100, 100⟩ = ⟨100, 100⟩ := rfl
    have hfit : (fitParams width).fitIn = some true := rfl
    simp only [Params.resized, htarget, hsource, hfit, if_true, hscale]
    rfl
  have hroot := root_fitPixel s width 1
  rw [List.take_of_length_le (by simp [fitPixel, enterPixel])] at hroot
  unfold canvas State.canvasBelow
  rw [path_fitPixel, size_fitPixel, hroot]
  simp only [List.isEmpty_cons, Bool.false_eq_true, if_false, State.canvasAlong, Params.output]
  rw [hresized]
  rfl

theorem quotient_huge :
    Number.quotient (10 ^ 200 * 10 ^ 200) 100 = .error .quotientTooLarge := by
  have hfault : (Number.quotient (10 ^ 200 * 10 ^ 200) 100).map (fun _ => ()) =
      .error .quotientTooLarge := by
    decide +kernel
  cases hq : Number.quotient (10 ^ 200 * 10 ^ 200) 100 with
  | ok q =>
      rw [hq] at hfault
      cases hfault
  | error fault =>
      rw [hq] at hfault
      cases hfault
      rfl

/-- The arithmetic of a canvas can fail: the quotient of a wanted width with 401 digits and the
    width of the image exceeds every double. -/
theorem canvas_of_huge_width :
    ∃ moves : List Move,
      (∀ n, ((start {} "base.png" ⟨100, 100⟩ none).after (moves.take n)).root.DistinctIds) ∧
        ((start {} "base.png" ⟨100, 100⟩ none).after moves).canvas =
          .error (.arithmetic .quotientTooLarge) := by
  refine ⟨fitPixel (10 ^ 200 * 10 ^ 200), distinctIds_fitPixel {} _, ?_⟩
  exact canvas_fitPixel {} (by decide) quotient_huge

end Retouch.Editor
