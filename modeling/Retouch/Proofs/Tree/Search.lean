/-
  The search for an id in a tree, and the walk along the path that it gives.

  The search goes into every layer before the ones behind it, and gives up only if no layer at any
  depth has the id (`State.findPath?_eq_none`).  What it ends at is the relation `Found`: nothing in
  front of the layers on the way carries the id.  The walk knows less.  At each step it takes the
  first layer with the id of the step, and if that one does not carry the id that was searched, the
  path is overtaken by it (`State.Overtaken`).  The path leads to the layer that was found, or it is
  overtaken and leads nowhere (`Found.leads`).
-/
import Retouch.Proofs.Tree.Lens

namespace Retouch

/-! ## Layers at any depth -/

/-- Whether a layer is one of some layers or on top of one of them, at any depth. -/
inductive Among (l : Layer) : List Layer → Prop
  | here {ls : List Layer} (hl : l ∈ ls) : Among l ls
  | inside {ls : List Layer} {k : Layer} (hk : k ∈ ls) (h : Among l k.state.layerList) : Among l ls

/-- Whether a layer is in a tree, at any depth. -/
def State.Has (s : State) (l : Layer) : Prop := Among l s.layerList

/-- Whether a layer has an id, or a layer on top of it does, at any depth. -/
def Layer.Carries (k : Layer) (id : String) : Prop :=
  k.id = id ∨ ∃ l, k.state.Has l ∧ l.id = id

/-- A layer with the id is in a tree if one of its layers carries the id. -/
theorem State.exists_has_iff {s : State} {id : String} :
    (∃ l, s.Has l ∧ l.id = id) ↔ ∃ k ∈ s.layerList, k.Carries id := by
  constructor
  · rintro ⟨l, hl, hid⟩
    cases hl with
    | here hl => exact ⟨l, hl, Or.inl hid⟩
    | inside hk h => exact ⟨_, hk, Or.inr ⟨l, h, hid⟩⟩
  · rintro ⟨k, hk, hid | ⟨l, hl, hid⟩⟩
    · exact ⟨k, .here hk, hid⟩
    · exact ⟨l, .inside hk hl, hid⟩

namespace State

variable {s : State} {path : List String} {l : Layer}

/-- A path that leads to a layer ends in its id, and the layer is in the tree. -/
theorem has_of_layerAt? (h : s.layerAt? path = some l) :
    s.Has l ∧ path.getLast? = some l.id := by
  have hchild : ∀ {s : State} {id : String} {k : Layer}, s.child? id = some k →
      k ∈ s.layerList ∧ k.id = id := fun hk =>
    ⟨List.mem_of_find?_eq_some hk, of_decide_eq_true (List.find?_eq_some_iff_append.mp hk).1⟩
  induction path generalizing s with
  | nil => cases h
  | cons id rest ih =>
      by_cases hrest : rest = []
      · subst hrest
        obtain ⟨hmem, hid⟩ := hchild h
        exact ⟨.here hmem, congrArg some hid.symm⟩
      · rw [layerAt?_cons _ _ hrest] at h
        obtain ⟨k, hk, hin⟩ := Option.bind_eq_some_iff.mp h
        obtain ⟨hhas, hlast⟩ := ih hin
        refine ⟨.inside (hchild hk).1 hhas, ?_⟩
        rw [List.getLast?_cons, hlast]
        rfl

/-- A layer at the end of a path that goes through a child is carried by the child. -/
theorem carries_of_layerAt? {id : String} {rest : List String} {k : Layer}
    (hk : s.child? id = some k) (h : s.layerAt? (id :: rest) = some l) : k.Carries l.id := by
  by_cases hrest : rest = []
  · subst hrest
    obtain rfl : k = l := Option.some.inj (hk.symm.trans h)
    exact Or.inl rfl
  · rw [layerAt?_cons _ _ hrest, hk] at h
    exact Or.inr ⟨l, (has_of_layerAt? h).1, rfl⟩

end State

/-! ## What the search finds -/

theorem Layer.findPath?_eq (id : String) (k : Layer) :
    k.findPath? id =
      if k.id = id then some [k.id] else (k.state.findPath? id).map (k.id :: ·) := by
  obtain ⟨p, transforms⟩ := k
  cases transforms with
  | none => rfl
  | some s => rfl

/-- A layer is passed over if what is on top of it is and it has another id. -/
theorem Layer.findPath?_eq_none_of {id : String} {k : Layer}
    (hs : k.state.findPath? id = none ↔ ¬ ∃ l, k.state.Has l ∧ l.id = id) :
    k.findPath? id = none ↔ ¬ k.Carries id := by
  rw [Layer.findPath?_eq, Layer.Carries, not_or, ← hs]
  by_cases hid : k.id = id
  · simp [hid]
  · simp [hid]

mutual

/-- The search gives up exactly if no layer of the tree has the id. -/
theorem State.findPath?_eq_none {id : String} :
    ∀ {s : State}, s.findPath? id = none ↔ ¬ ∃ l, s.Has l ∧ l.id = id
  | ⟨_, none⟩ => by
      rw [State.exists_has_iff]
      simp [State.findPath?, State.layerList]
  | ⟨_, some ls⟩ => by
      rw [State.exists_has_iff, State.findPath?, findPathAmong?_eq_none]
      simp [State.layerList]

theorem findPathAmong?_eq_none {id : String} :
    ∀ {ls : List Layer}, findPathAmong? id ls = none ↔ ∀ k ∈ ls, ¬ k.Carries id
  | [] => by simp [findPathAmong?]
  | l :: ls => by
      have hl : l.findPath? id = none ↔ ¬ l.Carries id := Layer.findPath?_eq_none
      have hls : findPathAmong? id ls = none ↔ ∀ k ∈ ls, ¬ k.Carries id :=
        findPathAmong?_eq_none
      rw [findPathAmong?, List.forall_mem_cons, ← hl, ← hls]
      cases l.findPath? id with
      | none => simp
      | some path => simp

theorem Layer.findPath?_eq_none {id : String} :
    ∀ {k : Layer}, k.findPath? id = none ↔ ¬ k.Carries id
  | ⟨_, none⟩ => by
      refine Layer.findPath?_eq_none_of ?_
      rw [State.exists_has_iff]
      simp [Layer.state, State.empty, State.findPath?, State.layerList]
  | ⟨_, some _⟩ => Layer.findPath?_eq_none_of State.findPath?_eq_none

end

/-- Whether the search for an id among some layers ends at a layer: nothing in front of the layers
on the way carries the id. -/
inductive Found (id : String) (l : Layer) : List Layer → List String → Prop
  | here {front back : List Layer} (hfront : ∀ k ∈ front, ¬ k.Carries id) (hl : l.id = id) :
      Found id l (front ++ l :: back) [l.id]
  | inside {front back : List Layer} {k : Layer} {path : List String}
      (hfront : ∀ j ∈ front, ¬ j.Carries id) (hk : k.id ≠ id)
      (h : Found id l k.state.layerList path) : Found id l (front ++ k :: back) (k.id :: path)

/-- Layers that do not carry the id are passed over. -/
theorem Found.cons {id : String} {l j : Layer} {ls : List Layer} {path : List String}
    (hj : ¬ j.Carries id) (h : Found id l ls path) : Found id l (j :: ls) path := by
  cases h with
  | @here front back hfront hl =>
      have hfront' : ∀ i ∈ j :: front, ¬ i.Carries id := List.forall_mem_cons.mpr ⟨hj, hfront⟩
      exact Found.here hfront' hl
  | @inside front back k path hfront hk h =>
      have hfront' : ∀ i ∈ j :: front, ¬ i.Carries id := List.forall_mem_cons.mpr ⟨hj, hfront⟩
      exact Found.inside hfront' hk h

/-- A layer is found if it has the id, else what is found on top of it. -/
theorem Layer.found_of_findPath?_of {id : String} {path : List String} {k : Layer} (ls : List Layer)
    (h : k.findPath? id = some path)
    (hs : ∀ rest, k.state.findPath? id = some rest → ∃ l, Found id l k.state.layerList rest) :
    ∃ l, Found id l (k :: ls) path := by
  rw [Layer.findPath?_eq] at h
  split at h
  · rename_i hid
    obtain rfl := Option.some.inj h
    exact ⟨k, Found.here (List.forall_mem_nil _) hid⟩
  · rename_i hid
    obtain ⟨rest, hrest, rfl⟩ := Option.map_eq_some_iff.mp h
    obtain ⟨l, hl⟩ := hs rest hrest
    exact ⟨l, Found.inside (List.forall_mem_nil _) hid hl⟩

mutual

theorem State.found_of_findPath? {id : String} {path : List String} :
    ∀ {s : State}, s.findPath? id = some path → ∃ l, Found id l s.layerList path
  | ⟨_, none⟩, h => by cases h
  | ⟨_, some _⟩, h => found_of_findPathAmong? h

/-- A path that the search gives is one to a layer that it finds. -/
theorem found_of_findPathAmong? {id : String} {path : List String} :
    ∀ {ls : List Layer}, findPathAmong? id ls = some path → ∃ l, Found id l ls path
  | [], h => by cases h
  | k :: ls, h => by
      rw [findPathAmong?] at h
      cases hk : k.findPath? id with
      | some found =>
          rw [hk] at h
          obtain rfl : found = path := Option.some.inj h
          exact Layer.found_of_findPath? ls hk
      | none =>
          rw [hk] at h
          obtain ⟨l, hl⟩ := found_of_findPathAmong? h
          exact ⟨l, hl.cons (Layer.findPath?_eq_none.mp hk)⟩

theorem Layer.found_of_findPath? {id : String} {path : List String} (ls : List Layer) :
    ∀ {k : Layer}, k.findPath? id = some path → ∃ l, Found id l (k :: ls) path
  | ⟨_, none⟩, h => Layer.found_of_findPath?_of ls h fun _ hrest => by cases hrest
  | ⟨_, some _⟩, h => Layer.found_of_findPath?_of ls h fun _ => State.found_of_findPath?

end

/-! ## Where the path leads -/

/-- Whether a path is overtaken on the way to an id: at some step the walk takes a layer that does
not carry the id, because it stands in front of one with the same id that does. -/
def State.Overtaken (s : State) (id : String) (path : List String) : Prop :=
  ∃ above step below t taken passed, path = above ++ step :: below ∧
    s.stateAt? above = some t ∧ t.child? step = some taken ∧ ¬ taken.Carries id ∧
    passed ∈ t.layerList ∧ passed.id = step ∧ passed.Carries id

namespace State

variable {s : State} {id : String} {path : List String}

/-- A path that is overtaken further down is overtaken. -/
theorem Overtaken.cons {step : String} {k : Layer} (hk : s.child? step = some k)
    (h : k.state.Overtaken id path) : s.Overtaken id (step :: path) := by
  obtain ⟨above, next, below, t, taken, passed, rfl, ht, hrest⟩ := h
  refine ⟨step :: above, next, below, t, taken, passed, rfl, ?_, hrest⟩
  rw [stateAt?, hk]
  exact ht

/-- A path that is overtaken on the way to its end leads nowhere. -/
theorem Overtaken.layerAt?_eq_none (h : s.Overtaken id path) (hlast : path.getLast? = some id) :
    s.layerAt? path = none := by
  obtain ⟨above, step, below, t, taken, passed, rfl, ht, htaken, hcarries, -⟩ := h
  rw [layerAt?_append _ _ (by simp), ht, Option.bind_some]
  cases hl : t.layerAt? (step :: below) with
  | none => rfl
  | some l =>
      have hid : l.id = id := by
        rw [List.getLast?_append, (has_of_layerAt? hl).2] at hlast
        exact Option.some.inj hlast
      exact absurd (hid ▸ carries_of_layerAt? htaken hl) hcarries

/-- In a tree whose lists have distinct ids no path that the search gives is overtaken. -/
theorem not_overtaken_of_distinctIds (hids : s.DistinctIds) (h : s.findPath? id = some path)
    (hlast : path.getLast? = some id) : ¬ s.Overtaken id path := by
  intro hover
  have hpath : path ≠ [] := by
    rintro rfl
    cases hlast
  have hsome := (isSome_layerAt? hpath).mpr (resolves_findPath? hids h)
  rw [hover.layerAt?_eq_none hlast] at hsome
  cases hsome

end State

namespace Found

variable {id : String} {l : Layer} {path : List String}

/-- The path to a layer that was found ends in the id. -/
theorem id_eq {ls : List Layer} (h : Found id l ls path) :
    l.id = id ∧ path.getLast? = some id := by
  induction h with
  | here _ hl => exact ⟨hl, congrArg some hl⟩
  | inside _ _ _ ih =>
      refine ⟨ih.1, ?_⟩
      rw [List.getLast?_cons, ih.2]
      rfl

/-- A layer that was found is one of the layers or on top of one. -/
theorem among {ls : List Layer} (h : Found id l ls path) : Among l ls := by
  induction h with
  | here => exact .here (by simp)
  | inside _ _ _ ih => exact .inside (by simp) ih

/-- The walk follows the path to the layer that was found, or is overtaken. -/
theorem leads {s : State} (h : Found id l s.layerList path) :
    s.layerAt? path = some l ∨ s.Overtaken id path := by
  -- The first layer with the id of the step is the one that the search went into, or in front.
  have hfirst : ∀ {s : State} {front back : List Layer} {k : Layer},
      s.layerList = front ++ k :: back → s.child? k.id = some k ∨
        ∃ taken ∈ front, s.child? k.id = some taken := by
    intro s front back k hs
    unfold State.child?
    rw [hs, findLayer?, List.find?_append]
    cases hf : front.find? (·.id = k.id) with
    | none => exact Or.inl (by simp)
    | some taken => exact Or.inr ⟨taken, List.mem_of_find?_eq_some hf, rfl⟩
  generalize hs : s.layerList = ls at h
  induction h generalizing s with
  | @here front back hfront hl =>
      rcases hfirst hs with hk | ⟨taken, hmem, htaken⟩
      · exact Or.inl hk
      · exact Or.inr ⟨[], l.id, [], s, taken, l, rfl, rfl, htaken, hfront taken hmem,
          by simp [hs], rfl, Or.inl hl⟩
  | @inside front back k path hfront hk h ih =>
      rcases hfirst hs with hchild | ⟨taken, hmem, htaken⟩
      · have hpath : path ≠ [] := by
          rintro rfl
          cases h.id_eq.2
        rw [State.layerAt?_cons _ _ hpath, hchild]
        exact (ih rfl).imp_right fun hover => hover.cons hchild
      · have hcarries : k.Carries id := Or.inr ⟨l, h.among, h.id_eq.1⟩
        exact Or.inr ⟨[], k.id, path, s, taken, k, rfl, rfl, htaken, hfront taken hmem,
          by simp [hs], rfl, hcarries⟩

end Found

end Retouch
