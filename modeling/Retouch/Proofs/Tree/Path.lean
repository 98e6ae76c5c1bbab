/-
  Paths of ids in a tree, and what changes along them.

  A path is followed from list to list, each time to the first layer with the id.  Rebuilding the
  nodes on a path keeps their ids, so the path leads on to what was put at its end.

  A search through the whole tree is another matter: it also looks into layers that are not the
  first with their id, and the path that it gives leads elsewhere then.  In a tree whose lists
  have distinct ids (`State.DistinctIds`) the path that is found leads to a layer.
-/
import Retouch.Proofs.Result
import Retouch.Tree

namespace Retouch

/-! ## Following a path -/

namespace State

/-- Whether a path leads somewhere. -/
def Resolves (root : State) (path : List String) : Prop := (root.stateAt? path).isSome

@[simp] theorem resolves_nil (root : State) : root.Resolves [] := rfl

theorem resolves_cons {root : State} {id : String} {rest : List String} :
    root.Resolves (id :: rest) ↔ ∃ l, root.child? id = some l ∧ l.state.Resolves rest := by
  unfold Resolves
  rw [stateAt?]
  cases root.child? id with
  | none => simp
  | some l => simp

theorem Resolves.exists_state {root : State} {path : List String} (h : root.Resolves path) :
    ∃ s, root.stateAt? path = some s :=
  Option.isSome_iff_exists.mp h

/-- A path is followed in two parts. -/
theorem stateAt?_append (root : State) (p q : List String) :
    root.stateAt? (p ++ q) = (root.stateAt? p).bind (·.stateAt? q) := by
  induction p generalizing root with
  | nil => rfl
  | cons id rest ih =>
      simp only [List.cons_append, stateAt?]
      cases root.child? id with
      | none => rfl
      | some l => exact ih l.state

/-- Where a path leads somewhere, every start of it does. -/
theorem Resolves.of_prefix {root : State} {p q : List String} (hp : root.Resolves p)
    (hq : q <+: p) : root.Resolves q := by
  obtain ⟨r, rfl⟩ := hq
  unfold Resolves at hp ⊢
  rw [stateAt?_append] at hp
  cases hs : root.stateAt? q with
  | none =>
      rw [hs] at hp
      exact absurd hp (by simp)
  | some s => rfl

/-- One step further along a path. -/
theorem Resolves.snoc {root s : State} {path : List String} {id : String} {l : Layer}
    (hs : root.stateAt? path = some s) (hl : s.child? id = some l) :
    root.Resolves (path ++ [id]) := by
  unfold Resolves
  rw [stateAt?_append, hs, Option.bind_some, stateAt?, hl]
  rfl

/-- A path that is not empty leads to a layer exactly if it leads somewhere. -/
theorem isSome_layerAt? {root : State} {path : List String} (hpath : path ≠ []) :
    (root.layerAt? path).isSome ↔ root.Resolves path := by
  unfold Resolves
  rw [stateAt?_eq_map_layerAt? root hpath, Option.isSome_map]

end State

/-! ## Rebuilding a list -/

/-- Replacing the first layer with an id puts another one where the first was found. -/
theorem replaceFirst_ok {id : String} {missing : Failure} {f : Layer → Except Failure Layer}
    {ls out : List Layer} (h : replaceFirst id missing f ls = .ok out) :
    ∃ l m, findLayer? id ls = some l ∧ f l = .ok m ∧
      (m.id = l.id → findLayer? id out = some m) := by
  induction ls generalizing out with
  | nil => cases h
  | cons l ls ih =>
      rw [replaceFirst] at h
      by_cases hid : l.id = id
      · rw [if_pos hid] at h
        obtain ⟨m, hm, hout⟩ := of_bind_eq_ok h
        cases hout
        refine ⟨l, m, ?_, hm, ?_⟩
        · simp [findLayer?, hid]
        · intro hkeep
          simp [findLayer?, hkeep, hid]
      · rw [if_neg hid] at h
        obtain ⟨rest, hrest, hout⟩ := of_bind_eq_ok h
        cases hout
        obtain ⟨k, m, hk, hm, hfind⟩ := ih hrest
        refine ⟨k, m, ?_, hm, ?_⟩
        · simpa [findLayer?, hid] using hk
        · intro hkeep
          simpa [findLayer?, hid] using hfind hkeep

/-- A layer that is there is replaced. -/
theorem exists_replaceFirst (missing : Failure) {id : String} {f : Layer → Except Failure Layer}
    {ls : List Layer} {l m : Layer} (hl : findLayer? id ls = some l) (hm : f l = .ok m) :
    ∃ out, replaceFirst id missing f ls = .ok out := by
  induction ls with
  | nil => cases hl
  | cons k ls ih =>
      unfold replaceFirst
      by_cases hid : k.id = id
      · obtain rfl : k = l := by simpa [findLayer?, hid] using hl
        rw [if_pos hid, hm]
        exact ⟨_, rfl⟩
      · obtain ⟨out, hout⟩ := ih (by simpa [findLayer?, hid] using hl)
        rw [if_neg hid, hout]
        exact ⟨_, rfl⟩

/-! ## Rebuilding a tree -/

namespace State

/-- Replacing the layers at the end of a path keeps the settings at the root, and the path leads
    to the state with the new layers. -/
theorem updateLayersAt_ok {f : List Layer → Except Failure (List Layer)} {path : List String}
    {s s' : State} (h : s.updateLayersAt f path = .ok s') :
    s'.params = s.params ∧
      ∃ t ls, s.stateAt? path = some t ∧ f t.layerList = .ok ls ∧
        s'.stateAt? path = some { t with layers := some ls } := by
  induction path generalizing s s' with
  | nil =>
      rw [updateLayersAt] at h
      obtain ⟨ls, hls, hs'⟩ := of_bind_eq_ok h
      cases hs'
      exact ⟨rfl, s, ls, rfl, hls, rfl⟩
  | cons id rest ih =>
      rw [updateLayersAt] at h
      obtain ⟨out, hout, hs'⟩ := of_bind_eq_ok h
      cases hs'
      obtain ⟨l, m, hl, hm, hfind⟩ := replaceFirst_ok hout
      obtain ⟨u, hin, hm⟩ := of_bind_eq_ok hm
      cases hm
      obtain ⟨-, t, ls, ht, hls, hu⟩ := ih hin
      refine ⟨rfl, t, ls, ?_, hls, ?_⟩
      · rw [stateAt?, show s.child? id = some l from hl]
        exact ht
      · rw [stateAt?, show child? ⟨s.params, some out⟩ id = some _ from hfind rfl]
        exact hu

/-- Where a path leads somewhere the layers at its end are replaced. -/
theorem exists_updateLayersAt {f : List Layer → Except Failure (List Layer)} {path : List String}
    {s t : State} {ls : List Layer} (ht : s.stateAt? path = some t)
    (hls : f t.layerList = .ok ls) : ∃ s', s.updateLayersAt f path = .ok s' := by
  induction path generalizing s with
  | nil =>
      obtain rfl := Option.some.inj ht
      rw [updateLayersAt, hls]
      exact ⟨_, rfl⟩
  | cons id rest ih =>
      rw [stateAt?] at ht
      obtain ⟨l, hl, ht⟩ := Option.bind_eq_some_iff.mp ht
      obtain ⟨u, hu⟩ := ih ht
      obtain ⟨out, hout⟩ := exists_replaceFirst (.layerMissing (.onPath id))
        (f := fun l => do return { l with transforms := some (← updateLayersAt f rest l.state) })
        hl (by rw [hu]; rfl)
      rw [updateLayersAt, hout]
      exact ⟨_, rfl⟩

/-- A layer of the state at the end of a path is replaced. -/
theorem exists_replaceLayerAt {root s : State} {path : List String} {id : String} {l : Layer}
    (hs : root.stateAt? path = some s) (hl : s.child? id = some l) (f : Layer → Layer) :
    ∃ root', root.replaceLayerAt (path ++ [id]) f = .ok root' := by
  rw [replaceLayerAt, List.getLast?_concat]
  simp only [List.dropLast_concat]
  obtain ⟨out, hout⟩ := exists_replaceFirst (.layerMissing (.anywhere id))
    (f := fun l => .ok (f l)) hl rfl
  exact exists_updateLayersAt hs hout

/-- The layer that a path leads to is replaced. -/
theorem Resolves.exists_replaceLayerAt {root : State} {path : List String} (hpath : path ≠ [])
    (h : root.Resolves path) (f : Layer → Layer) :
    ∃ root', root.replaceLayerAt path f = .ok root' := by
  obtain ⟨init, id, rfl⟩ : ∃ init id, path = init ++ [id] :=
    ⟨_, _, (List.dropLast_concat_getLast hpath).symm⟩
  obtain ⟨t, ht⟩ := h.exists_state
  rw [stateAt?_append] at ht
  obtain ⟨s, hs, ht⟩ := Option.bind_eq_some_iff.mp ht
  rw [stateAt?] at ht
  obtain ⟨l, hl, -⟩ := Option.bind_eq_some_iff.mp ht
  exact State.exists_replaceLayerAt hs hl f

/-- After the layers at the end of a path are replaced the path still leads somewhere. -/
theorem resolves_updateLayersAt {f : List Layer → Except Failure (List Layer)}
    {path : List String} {s s' : State} (h : s.updateLayersAt f path = .ok s') :
    s'.Resolves path := by
  obtain ⟨-, t, ls, -, -, hs'⟩ := updateLayersAt_ok h
  unfold Resolves
  rw [hs']
  rfl

/-- Replacing a layer keeps the settings at the root. -/
theorem params_replaceLayerAt {root root' : State} {path : List String} {f : Layer → Layer}
    (h : root.replaceLayerAt path f = .ok root') : root'.params = root.params := by
  rw [replaceLayerAt] at h
  cases hlast : path.getLast? with
  | none => simp [hlast] at h
  | some id =>
      simp only [hlast] at h
      exact (updateLayersAt_ok h).1

/-- After a layer is replaced the path to the list that it is in still leads somewhere. -/
theorem resolves_replaceLayerAt_snoc {root root' : State} {path : List String} {id : String}
    {f : Layer → Layer} (h : root.replaceLayerAt (path ++ [id]) f = .ok root') :
    root'.Resolves path := by
  rw [replaceLayerAt, List.getLast?_concat] at h
  rw [List.dropLast_concat] at h
  exact resolves_updateLayersAt h

/-- After a layer is replaced by one with the same id the path still leads somewhere. -/
theorem resolves_replaceLayerAt {root root' : State} {path : List String} {f : Layer → Layer}
    (hf : ∀ l, (f l).id = l.id) (h : root.replaceLayerAt path f = .ok root') :
    root'.Resolves path := by
  rw [replaceLayerAt] at h
  cases hlast : path.getLast? with
  | none => simp [hlast] at h
  | some id =>
      simp only [hlast] at h
      obtain ⟨init, rfl⟩ := List.getLast?_eq_some_iff.mp hlast
      rw [List.dropLast_concat] at h
      obtain ⟨-, t, ls, -, hls, hs'⟩ := updateLayersAt_ok h
      obtain ⟨l, m, -, hm, hfind⟩ := replaceFirst_ok hls
      have hid : m.id = l.id := by
        rw [← Except.ok.inj hm]
        exact hf l
      exact Resolves.snoc hs' (hfind hid)

theorem resolves_setTransformsAt {root root' s : State} {path : List String}
    (h : root.setTransformsAt path s = .ok root') : root'.Resolves path :=
  resolves_replaceLayerAt (f := fun l => { l with transforms := some s.withoutIdentity })
    (fun _ => rfl) h

theorem params_setTransformsAt {root root' s : State} {path : List String}
    (h : root.setTransformsAt path s = .ok root') : root'.params = root.params :=
  params_replaceLayerAt h

end State

/-! ## Distinct ids -/

mutual

/-- Whether no list of layers in a tree has two with the same id. -/
def State.DistinctIds : State → Prop
  | ⟨_, none⟩ => True
  | ⟨_, some layers⟩ => (layers.map Layer.id).Nodup ∧ AllDistinctIds layers

/-- Whether that holds of what is on each of some layers. -/
def AllDistinctIds : List Layer → Prop
  | [] => True
  | l :: ls => l.DistinctIds ∧ AllDistinctIds ls

/-- Whether that holds of what is on a layer. -/
def Layer.DistinctIds : Layer → Prop
  | ⟨_, none⟩ => True
  | ⟨_, some s⟩ => s.DistinctIds

end

mutual

/-- Decides whether the ids in a tree are distinct. -/
def State.decideDistinctIds : (s : State) → Decidable s.DistinctIds
  | ⟨_, none⟩ => isTrue trivial
  | ⟨_, some layers⟩ =>
    have := decideAllDistinctIds layers
    inferInstanceAs (Decidable ((layers.map Layer.id).Nodup ∧ AllDistinctIds layers))

def decideAllDistinctIds : (ls : List Layer) → Decidable (AllDistinctIds ls)
  | [] => isTrue trivial
  | l :: ls =>
    have := l.decideDistinctIds
    have := decideAllDistinctIds ls
    inferInstanceAs (Decidable (l.DistinctIds ∧ AllDistinctIds ls))

def Layer.decideDistinctIds : (l : Layer) → Decidable l.DistinctIds
  | ⟨_, none⟩ => isTrue trivial
  | ⟨_, some s⟩ => s.decideDistinctIds

end

instance (s : State) : Decidable s.DistinctIds := s.decideDistinctIds

/-- Among layers with distinct ids each is the first with its id. -/
theorem findLayer?_of_mem {ls : List Layer} (hnodup : (ls.map Layer.id).Nodup) {l : Layer}
    (hl : l ∈ ls) : findLayer? l.id ls = some l := by
  induction ls with
  | nil => exact absurd hl List.not_mem_nil
  | cons k ls ih =>
      rw [List.map_cons, List.nodup_cons] at hnodup
      rcases List.mem_cons.mp hl with rfl | htail
      · simp [findLayer?]
      · have hne : k.id ≠ l.id := by
          intro heq
          exact hnodup.1 (heq ▸ List.mem_map_of_mem htail)
        simpa [findLayer?, hne] using ih hnodup.2 htail

mutual

/-- In a tree with distinct ids, the path to the first layer with an id leads to a layer. -/
theorem State.resolves_findPath? {id : String} {path : List String} :
    ∀ {s : State}, s.DistinctIds → s.findPath? id = some path → s.Resolves path
  | ⟨_, none⟩, _, h => by simp [State.findPath?] at h
  | ⟨p, some layers⟩, hd, h => by
      rw [State.findPath?] at h
      obtain ⟨hnodup, hall⟩ := hd
      obtain ⟨l, hl, rest, rfl, hrest⟩ := resolves_findPathAmong? hall h
      exact State.resolves_cons.mpr ⟨l, findLayer?_of_mem hnodup hl, hrest⟩

theorem resolves_findPathAmong? {id : String} {path : List String} :
    ∀ {ls : List Layer}, AllDistinctIds ls → findPathAmong? id ls = some path →
      ∃ l ∈ ls, ∃ rest, path = l.id :: rest ∧ l.state.Resolves rest
  | [], _, h => by simp [findPathAmong?] at h
  | l :: ls, hd, h => by
      rw [findPathAmong?] at h
      cases hl : l.findPath? id with
      | some found =>
          rw [hl] at h
          obtain rfl : found = path := Option.some.inj h
          obtain ⟨rest, hpath, hrest⟩ := Layer.resolves_findPath? hd.1 hl
          exact ⟨l, List.mem_cons_self, rest, hpath, hrest⟩
      | none =>
          rw [hl] at h
          obtain ⟨k, hk, hrest⟩ := resolves_findPathAmong? hd.2 h
          exact ⟨k, List.mem_cons_of_mem l hk, hrest⟩

theorem Layer.resolves_findPath? {id : String} {path : List String} :
    ∀ {l : Layer}, l.DistinctIds → l.findPath? id = some path →
      ∃ rest, path = l.id :: rest ∧ l.state.Resolves rest
  | ⟨p, none⟩, _, h => by
      simp only [Layer.findPath?] at h
      split at h
      · exact ⟨[], (Option.some.inj h).symm, State.resolves_nil _⟩
      · cases h
  | ⟨p, some s⟩, hd, h => by
      simp only [Layer.findPath?] at h
      split at h
      · exact ⟨[], (Option.some.inj h).symm, State.resolves_nil _⟩
      · cases hs : s.findPath? id with
        | none => simp [hs] at h
        | some rest =>
            rw [hs] at h
            exact ⟨rest, (Option.some.inj h).symm, State.resolves_findPath? hd hs⟩

end

end Retouch
