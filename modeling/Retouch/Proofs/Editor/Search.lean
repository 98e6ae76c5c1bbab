/-
  Entering any layer of a tree.

  A switch of the context to a layer that is neither on the path nor in the context goes along the
  path that the search gives.  Whatever the tree is, the editor is then at a path that ends in the
  id (`lands_switchContext`).  What is edited there can be read exactly if that path is not
  overtaken, that is, if the walk never takes a layer without the id for one that stands behind it
  and carries it (`search_and_walk`).  Both happen: in a tree with distinct ids nothing is
  overtaken, and with two layers of one id the search can lead where there is nothing
  (`search_and_walk_twins`).
-/
import Retouch.Proofs.Editor.Context
import Retouch.Proofs.Tree.Search

namespace Retouch.Editor

open Edit Editor.Core

variable {e : Editor} {id : String}

/-! ## Where a switch lands -/

/-- A path up to an id on it ends in the id. -/
theorem getLast?_take_idxOf {path : List String} (h : id ∈ path) :
    (path.take (path.idxOf id + 1)).getLast? = some id := by
  have hlt : path.idxOf id < path.length := List.idxOf_lt_length_iff.mpr h
  rw [List.take_succ_eq_append_getElem hlt, List.getLast?_concat, List.getElem_idxOf hlt]

/-- A switch to a layer of the tree stays where it is, or goes along a path of the tree or along
    the one that the search gives; the path ends in the id. -/
theorem destination_of_has (he : e.core.Anchored) (hid : ∃ l, e.root.Has l ∧ l.id = id) :
    (e.destination (some id) = .ok none ∧ e.path.getLast? = some id) ∨
      ∃ d, e.destination (some id) = .ok (some d) ∧ d.path.getLast? = some id ∧
        (e.root.Resolves d.path ∨ e.root.findPath? id = some d.path) := by
  dsimp only [destination]
  by_cases hopen : e.path.getLast? = some id
  · exact Or.inl ⟨if_pos hopen, hopen⟩
  · right
    rw [if_neg hopen]
    by_cases habove : e.path.contains id
    · rw [if_pos habove]
      refine ⟨_, rfl, ?_, Or.inl ?_⟩
      · rw [Context.path_ofPath]
        exact getLast?_take_idxOf (by simpa using habove)
      · rw [Context.path_ofPath]
        exact he.of_prefix (List.take_prefix _ _)
    · obtain ⟨s, hs⟩ := State.Resolves.exists_state he
      have hstate : e.root.stateAt? e.path = some s := hs
      have hfound : e.contextLayer? id = .ok (s.child? id) := by
        unfold contextLayer? current
        rw [hstate]
        rfl
      rw [if_neg habove, hfound]
      cases hl : s.child? id with
      | some l =>
          refine ⟨_, rfl, ?_, Or.inl ?_⟩
          · unfold Context.enter
            rw [Context.path_ofPath, List.getLast?_concat]
          · unfold Context.enter
            rw [Context.path_ofPath]
            exact State.Resolves.snoc hstate hl
      | none =>
          cases hpath : e.root.findPath? id with
          | none => exact absurd hid (State.findPath?_eq_none.mp hpath)
          | some path =>
              obtain ⟨l, hl⟩ := State.found_of_findPath? hpath
              refine ⟨.ofPath path, rfl, ?_, Or.inr ?_⟩
              · rw [Context.path_ofPath]
                exact hl.id_eq.2
              · rw [Context.path_ofPath]

/-- After a switch to a layer of the tree the context is a path that ends in its id, and leads
    somewhere or is the one that the search gives. -/
theorem lands_switchContext (he : e.core.Anchored) (hid : ∃ l, e.root.Has l ∧ l.id = id) :
    let e' := ((switchContext (some id)).run e).editor
    e'.root = e.root ∧ e'.path.getLast? = some id ∧
      (e.root.Resolves e'.path ∨ e.root.findPath? id = some e'.path) := by
  intro e'
  rcases destination_of_has he hid with ⟨hsame, hlast⟩ | ⟨d, hd, hlast, hleads⟩
  · have hkept : e' = e := Keeps.of_run (keeps_switchContext (some id) (e := e)
      fun d hd => by cases hsame.symm.trans hd) rfl
    rw [hkept]
    exact ⟨rfl, hlast, Or.inl he⟩
  · have hcore : e'.core = { e.core with context := d, history := e.history.flush.1 } :=
      (switchContext_core hd).of_run (I := fun e' => e'.core = _) rfl (fun _ _ he' => he')
        fun _ he' => he'
    have hroot : e'.root = e.root := congrArg Core.root hcore
    have hpath : e'.path = d.path := path_eq hcore
    rw [hroot, hpath]
    exact ⟨rfl, hlast, hleads⟩

/-- What is edited can be read exactly if the context leads somewhere. -/
theorem exists_current_iff : (∃ s, e.current = .ok s) ↔ e.root.Resolves e.path := by
  unfold current State.Resolves
  cases e.root.stateAt? e.path with
  | none => simp
  | some s => simp

/-! ## The search and the walk -/

/-- **The search and the walk.**  The search for an id gives up exactly if no layer at any depth
    has it.  A path that it gives ends in the id and leads to a layer of the tree with the id,
    unless it is overtaken: then a layer on the way is taken for one behind it, and the path leads
    nowhere.  In a tree with distinct ids that does not happen.  A switch from a context that can be
    read to a layer of the tree ends at a path that ends in the id, and what is there can be read
    unless the path is the one that the search gave and is overtaken. -/
theorem search_and_walk (root : State) (id : String) :
    (root.findPath? id = none ↔ ∀ l, root.Has l → l.id ≠ id) ∧
      (∀ path, root.findPath? id = some path →
        path.getLast? = some id ∧
          ((∃ l, root.layerAt? path = some l ∧ l.id = id ∧ root.Has l) ↔
            ¬ root.Overtaken id path) ∧
          (root.layerAt? path = none ↔ root.Overtaken id path) ∧
          (root.DistinctIds → ¬ root.Overtaken id path)) ∧
      ∀ e : Editor, e.root = root → (∃ s, e.current = .ok s) → (∃ l, root.Has l ∧ l.id = id) →
        let e' := ((switchContext (some id)).run e).editor
        e'.root = root ∧ e'.path.getLast? = some id ∧
          ((∃ s, e'.current = .ok s) ↔
            ¬ (root.findPath? id = some e'.path ∧ root.Overtaken id e'.path)) := by
  have hwalk : ∀ path, root.findPath? id = some path → path.getLast? = some id ∧
      ((∃ l, root.layerAt? path = some l ∧ l.id = id ∧ root.Has l) ∨ root.Overtaken id path) := by
    intro path hpath
    obtain ⟨l, hl⟩ := State.found_of_findPath? hpath
    exact ⟨hl.id_eq.2, hl.leads.imp_left fun hleads => ⟨l, hleads, hl.id_eq.1, hl.among⟩⟩
  refine ⟨?_, fun path hpath => ?_, ?_⟩
  · rw [State.findPath?_eq_none]
    simp
  · obtain ⟨hlast, hleads⟩ := hwalk path hpath
    have hover : root.Overtaken id path → root.layerAt? path = none :=
      fun hover => hover.layerAt?_eq_none hlast
    refine ⟨hlast, ⟨?_, fun hnot => hleads.resolve_right hnot⟩, ⟨fun hnone => ?_, hover⟩,
      fun hids => State.not_overtaken_of_distinctIds hids hpath hlast⟩
    · rintro ⟨l, hl, -⟩ htaken
      rw [hover htaken] at hl
      cases hl
    · refine hleads.resolve_left ?_
      rintro ⟨l, hl, -⟩
      rw [hnone] at hl
      cases hl
  · rintro e rfl hcurrent hid e'
    obtain ⟨hroot, hlast, hleads⟩ := lands_switchContext (exists_current_iff.mp hcurrent) hid
    refine ⟨hroot, hlast, ?_⟩
    have hne : e'.path ≠ [] := by
      intro hnil
      rw [hnil] at hlast
      cases hlast
    rw [exists_current_iff, hroot, ← State.isSome_layerAt? hne]
    constructor
    · rintro hsome ⟨-, hover⟩
      rw [hover.layerAt?_eq_none hlast] at hsome
      cases hsome
    · intro hnot
      rcases hleads with hresolves | hfound
      · exact (State.isSome_layerAt? hne).mpr hresolves
      · obtain ⟨l, hl, -⟩ := (hwalk _ hfound).2.resolve_right fun hover => hnot ⟨hfound, hover⟩
        rw [hl]
        rfl

/-- A layer without settings, apart from the layers on top of it. -/
def namedLayer (id : String) (inside : List Layer) : Layer :=
  ⟨⟨id, id ++ ".png", ⟨10, 10⟩, .centered, .centered, 0, .normal, true, "Layer"⟩,
    some ⟨{}, some inside⟩⟩

/-- Two layers with one id, where only the second has a layer on top of it, and that one again
behind them on top of a third. -/
def twins : State :=
  ⟨{}, some [namedLayer "a" [], namedLayer "a" [namedLayer "b" []],
    namedLayer "c" [namedLayer "b" []]]⟩

/-- An editor of the twins at the root. -/
def twinEditor : Editor := { start {} "base.png" ⟨10, 10⟩ none with root := twins }

theorem path_switch_twins :
    ((switchContext (some "b")).run twinEditor).editor.path = ["a", "b"] := by
  have hd : twinEditor.destination (some "b") = .ok (some (.ofPath ["a", "b"])) := by
    have hpath : twins.findPath? "b" = some ["a", "b"] := by decide
    have hchild : twins.child? "b" = none := by decide
    simp [destination, contextLayer?, current, twinEditor, start, Editor.path, Context.path,
      State.stateAt?, hpath, hchild, bind, Except.bind, pure, Except.pure]
  exact (switchContext_core hd).of_run (I := fun e' => e'.path = ["a", "b"]) rfl
    (fun _ _ he' => path_eq he') fun _ he' => path_eq he'

/-- Among the twins the search enters the second, the walk takes the first, and the switch leads
    to where nothing can be read, although there is a path to a layer with the id. -/
theorem search_and_walk_twins :
    twins.findPath? "b" = some ["a", "b"] ∧ twins.Overtaken "b" ["a", "b"] ∧
      (¬ ∃ s, ((switchContext (some "b")).run twinEditor).editor.current = .ok s) ∧
      (twins.layerAt? ["c", "b"]).map Layer.id = some "b" := by
  obtain ⟨hnone, hfound, hswitch⟩ := search_and_walk twins "b"
  have hpath : twins.findPath? "b" = some ["a", "b"] := by decide
  have hlost : twins.layerAt? ["a", "b"] = none := by decide
  have hhas : ∃ l, twins.Has l ∧ l.id = "b" := by
    by_contra hno
    have hgives := hnone.mpr fun l hl hid => hno ⟨l, hl, hid⟩
    rw [hpath] at hgives
    cases hgives
  have hover : twins.Overtaken "b" ["a", "b"] := (hfound _ hpath).2.2.1.mp hlost
  have hroot : ∃ s, twinEditor.current = .ok s := exists_current_iff.mpr (State.resolves_nil _)
  obtain ⟨-, -, hcurrent⟩ := hswitch twinEditor rfl hroot hhas
  refine ⟨hpath, hover, fun hread => hcurrent.mp hread ?_, by decide⟩
  rw [path_switch_twins]
  exact ⟨hpath, hover⟩

end Retouch.Editor
