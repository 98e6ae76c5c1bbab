/-
  Reading and writing at a path.

  Two trees that differ in one layer are in the relation `State.Swaps`: the same nodes lead down to
  the layer in both, and at each of them the step of the path is the first child with its id.
  Reading descends and writing rebuilds, and both are tied to that relation: a path leads to a layer
  exactly if the layer can be swapped (`Swaps.layerAt?_eq`, `exists_swaps`), and replacing the layer
  swaps it (`Swaps.replaceLayerAt_eq`).  What writing leaves alone is then a matter of the relation:
  what a path that parts from this one leads to (`Swaps.layerAt?_of_diverges`), the nodes above
  (`Swaps.layerAt?_above`, `Swaps.stateAt?_above`), and the tree that was there before the last
  write (`Swaps.exists_common`).
-/
import Retouch.Proofs.Tree.Path

namespace Retouch

/-! ## Splitting a list at a child -/

section

variable {id : String} {front back : List Layer} {l : Layer}

/-- The first layer with an id splits a list in two. -/
theorem exists_split_of_findLayer? {ls : List Layer} (h : findLayer? id ls = some l) :
    ∃ front back, ls = front ++ l :: back ∧ l.id = id ∧ ∀ k ∈ front, k.id ≠ id := by
  obtain ⟨hid, front, back, hls, hfront⟩ := List.find?_eq_some_iff_append.mp h
  exact ⟨front, back, hls, of_decide_eq_true hid, fun k hk => by simpa using hfront k hk⟩

theorem findLayer?_append (hid : l.id = id) (hfront : ∀ k ∈ front, k.id ≠ id) :
    findLayer? id (front ++ l :: back) = some l :=
  List.find?_eq_some_iff_append.mpr
    ⟨decide_eq_true hid, front, back, rfl, fun k hk => by simpa using hfront k hk⟩

/-- Another id is found beside a layer as it would be without it. -/
theorem findLayer?_append_of_ne {other : String} (h : l.id ≠ other) :
    findLayer? other (front ++ l :: back) = findLayer? other (front ++ back) := by
  rw [findLayer?, List.find?_append, List.find?_cons_of_neg (by simpa using h), findLayer?,
    List.find?_append]

theorem findIdx_append (hid : l.id = id) (hfront : ∀ k ∈ front, k.id ≠ id) :
    (front ++ l :: back).findIdx (·.id = id) = front.length := by
  have hnone : front.findIdx (·.id = id) = front.length :=
    List.findIdx_eq_length.mpr fun k hk => by simpa using hfront k hk
  rw [List.findIdx_append, hnone, if_neg (Nat.lt_irrefl _), List.findIdx_cons]
  simp [hid]

/-- The first layer with an id is the one that is replaced. -/
theorem replaceFirst_append (missing : Failure) {f : Layer → Except Failure Layer}
    (hid : l.id = id) (hfront : ∀ k ∈ front, k.id ≠ id) {m : Layer} (hm : f l = .ok m) :
    replaceFirst id missing f (front ++ l :: back) = .ok (front ++ m :: back) := by
  induction front with
  | nil =>
      rw [List.nil_append, replaceFirst, if_pos hid, hm]
      rfl
  | cons k front ih =>
      have hk : k.id ≠ id := hfront k List.mem_cons_self
      have hrest := ih fun j hj => hfront j (List.mem_cons_of_mem k hj)
      rw [List.cons_append, replaceFirst, if_neg hk, hrest]
      rfl

/-- A list without the id is not changed, and one with it only if the layer cannot be. -/
theorem replaceFirst_error {missing x : Failure} {f : Layer → Except Failure Layer}
    {ls : List Layer} (h : replaceFirst id missing f ls = .error x) :
    x = missing ∨ ∃ l, f l = .error x := by
  induction ls with
  | nil => exact Or.inl (Except.error.inj h).symm
  | cons l ls ih =>
      rw [replaceFirst] at h
      split at h
      · obtain hl | ⟨m, -, hm⟩ := of_bind_eq_error h
        · exact Or.inr ⟨l, hl⟩
        · cases hm
      · obtain hls | ⟨out, -, hout⟩ := of_bind_eq_error h
        · exact ih hls
        · cases hout

end

namespace State

/-! ## Replacing a layer, step by step -/

theorem replaceLayerAt_singleton (s : State) (id : String) (f : Layer → Layer) :
    s.replaceLayerAt [id] f = (do
      let layers ← replaceFirst id (.layerMissing (.anywhere id)) (fun l => .ok (f l)) s.layerList
      return { s with layers := some layers }) := rfl

theorem replaceLayerAt_cons (s : State) (id : String) {rest : List String} (hrest : rest ≠ [])
    (f : Layer → Layer) :
    s.replaceLayerAt (id :: rest) f = (do
      let inside (l : Layer) : Except Failure Layer := do
        return { l with transforms := some (← l.state.replaceLayerAt rest f) }
      let layers ← replaceFirst id (.layerMissing (.onPath id)) inside s.layerList
      return { s with layers := some layers }) := by
  obtain ⟨init, last, rfl⟩ : ∃ init last, rest = init ++ [last] :=
    ⟨_, _, (List.dropLast_concat_getLast hrest).symm⟩
  have hwhole : (id :: (init ++ [last])).getLast? = some last := by
    rw [← List.cons_append, List.getLast?_concat]
  have hinit : (id :: (init ++ [last])).dropLast = id :: init := by
    rw [← List.cons_append, List.dropLast_concat]
  unfold replaceLayerAt
  simp only [hwhole, hinit, List.getLast?_concat, List.dropLast_concat]
  rw [updateLayersAt]

/-- Replacing a layer only fails for want of a layer. -/
theorem layerMissing_of_replaceLayerAt {s : State} {path : List String} (hpath : path ≠ [])
    {f : Layer → Layer} {x : Failure} (h : s.replaceLayerAt path f = .error x) :
    ∃ w, x = .layerMissing w := by
  induction path generalizing s with
  | nil => exact absurd rfl hpath
  | cons id rest ih =>
      by_cases hrest : rest = []
      · subst hrest
        rw [replaceLayerAt_singleton] at h
        obtain hls | ⟨out, -, hout⟩ := of_bind_eq_error h
        · rcases replaceFirst_error hls with rfl | ⟨l, hl⟩
          · exact ⟨_, rfl⟩
          · cases hl
        · cases hout
      · rw [replaceLayerAt_cons s id hrest] at h
        obtain hls | ⟨out, -, hout⟩ := of_bind_eq_error h
        · rcases replaceFirst_error hls with rfl | ⟨l, hl⟩
          · exact ⟨_, rfl⟩
          -- The failure comes from a layer on the way, so from further down the path.
          · obtain hin | ⟨u, -, hu⟩ := of_bind_eq_error hl
            · exact ih hrest hin
            · cases hu
        · cases hout

/-! ## Trees that differ in one layer -/

/-- Whether a path leads from the first tree to one layer and from the second to another, and
nothing else is different. -/
inductive Swaps (l m : Layer) : List String → State → State → Prop
  | here {id : String} {p : Params} {front back : List Layer} (hl : l.id = id) (hm : m.id = id)
      (hfront : ∀ k ∈ front, k.id ≠ id) :
      Swaps l m [id] ⟨p, some (front ++ l :: back)⟩ ⟨p, some (front ++ m :: back)⟩
  | inside {id : String} {p : Params} {front back : List Layer} {q : LayerProps} {s t : State}
      {path : List String} (hid : q.id = id) (hfront : ∀ k ∈ front, k.id ≠ id)
      (h : Swaps l m path s t) :
      Swaps l m (id :: path) ⟨p, some (front ++ ⟨q, some s⟩ :: back)⟩
        ⟨p, some (front ++ ⟨q, some t⟩ :: back)⟩

variable {l m : Layer} {path : List String} {a b : State}

theorem child?_append {id : String} {p : Params} {front back : List Layer} (hid : l.id = id)
    (hfront : ∀ k ∈ front, k.id ≠ id) :
    child? ⟨p, some (front ++ l :: back)⟩ id = some l :=
  findLayer?_append hid hfront

theorem child?_inside {id : String} {p : Params} {front back : List Layer} {q : LayerProps}
    {transforms : Option State} (hid : q.id = id) (hfront : ∀ k ∈ front, k.id ≠ id) :
    child? ⟨p, some (front ++ ⟨q, transforms⟩ :: back)⟩ id = some ⟨q, transforms⟩ :=
  child?_append (l := ⟨q, transforms⟩) hid hfront

theorem layerAt?_cons (s : State) (id : String) {rest : List String} (hrest : rest ≠ []) :
    s.layerAt? (id :: rest) = (s.child? id).bind fun k => k.state.layerAt? rest := by
  cases rest with
  | nil => exact absurd rfl hrest
  | cons next rest => rfl

/-- A path below the end of another one leads on from there. -/
theorem layerAt?_append (root : State) (p : List String) {q : List String} (hq : q ≠ []) :
    root.layerAt? (p ++ q) = (root.stateAt? p).bind (·.layerAt? q) := by
  induction p generalizing root with
  | nil => rfl
  | cons id rest ih =>
      rw [List.cons_append, layerAt?_cons _ _ (List.append_ne_nil_of_right_ne_nil _ hq), stateAt?]
      cases root.child? id with
      | none => rfl
      | some l => exact ih l.state

/-- A path that does not begin with a child is not affected by what the child is. -/
theorem layerAt?_congr_of_ne {id other : String} {p : Params} {front back : List Layer}
    (hl : l.id = id) (hm : m.id = id) (hne : id ≠ other) (rest : List String) :
    layerAt? ⟨p, some (front ++ m :: back)⟩ (other :: rest) =
      layerAt? ⟨p, some (front ++ l :: back)⟩ (other :: rest) := by
  have hchild : child? ⟨p, some (front ++ m :: back)⟩ other =
      child? ⟨p, some (front ++ l :: back)⟩ other :=
    (findLayer?_append_of_ne (hm ▸ hne)).trans (findLayer?_append_of_ne (hl ▸ hne)).symm
  cases rest with
  | nil => exact hchild
  | cons next rest => simp only [layerAt?, hchild]

namespace Swaps

theorem path_ne_nil (h : Swaps l m path a b) : path ≠ [] := by
  cases h with
  | here => exact List.cons_ne_nil _ _
  | inside => exact List.cons_ne_nil _ _

theorem symm (h : Swaps l m path a b) : Swaps m l path b a := by
  induction h with
  | here hl hm hfront => exact .here hm hl hfront
  | inside hid hfront _ ih => exact .inside hid hfront ih

/-- The path leads to the layer of the first tree. -/
theorem layerAt?_eq (h : Swaps l m path a b) : a.layerAt? path = some l := by
  induction h with
  | here hl _ hfront => exact child?_append hl hfront
  | inside hid hfront h ih =>
      rw [layerAt?_cons _ _ h.path_ne_nil, child?_inside hid hfront]
      exact ih

end Swaps

/-- A layer that a path leads to can be swapped for one with its id. -/
theorem exists_swaps (h : a.layerAt? path = some l) (hid : m.id = l.id) :
    ∃ b, Swaps l m path a b := by
  induction path generalizing a with
  | nil => cases h
  | cons id rest ih =>
      have hlist : ∀ {k}, a.child? id = some k → ∃ front back,
          a = ⟨a.params, some (front ++ k :: back)⟩ ∧ k.id = id ∧ ∀ j ∈ front, j.id ≠ id := by
        intro k hk
        obtain ⟨front, back, hls, hkid, hfront⟩ := exists_split_of_findLayer? hk
        obtain ⟨p, layers⟩ := a
        cases layers with
        | none => exact absurd hls (by simp [layerList])
        | some ls => exact ⟨front, back, congrArg (State.mk p ∘ some) hls, hkid, hfront⟩
      by_cases hrest : rest = []
      · subst hrest
        obtain ⟨front, back, ha, hlid, hfront⟩ := hlist h
        rw [ha]
        exact ⟨_, .here hlid (hid.trans hlid) hfront⟩
      · rw [layerAt?_cons a id hrest] at h
        obtain ⟨k, hk, hin⟩ := Option.bind_eq_some_iff.mp h
        obtain ⟨front, back, ha, hkid, hfront⟩ := hlist hk
        obtain ⟨t, ht⟩ := ih hin
        obtain ⟨q, transforms⟩ := k
        cases transforms with
        | some s =>
            rw [ha]
            exact ⟨_, .inside hkid hfront ht⟩
        | none =>
            -- A layer without settings has nothing on top of it.
            exact absurd ht.layerAt?_eq (by
              obtain ⟨next, rest, rfl⟩ := List.exists_cons_of_ne_nil hrest
              cases rest <;> simp [Layer.state, empty, layerAt?, child?, layerList, findLayer?])

namespace Swaps

/-- Replacing the layer swaps it. -/
theorem replaceLayerAt_eq {f : Layer → Layer} (h : Swaps l m path a b) (hf : f l = m) :
    a.replaceLayerAt path f = .ok b := by
  induction h with
  | @here id p front back hl _ hfront =>
      have hlist : (⟨p, some (front ++ l :: back)⟩ : State).layerList = front ++ l :: back := rfl
      have hreplaced : (Except.ok (f l) : Except Failure Layer) = .ok m := congrArg Except.ok hf
      rw [replaceLayerAt_singleton, hlist, replaceFirst_append _ hl hfront hreplaced]
      rfl
  | @inside id p front back q s t path hid hfront h ih =>
      have hlist : (⟨p, some (front ++ ⟨q, some s⟩ :: back)⟩ : State).layerList =
          front ++ ⟨q, some s⟩ :: back := rfl
      rw [replaceLayerAt_cons _ _ h.path_ne_nil]
      extract_lets inside
      have hinside : inside ⟨q, some s⟩ = .ok ⟨q, some t⟩ := by
        show (do return (⟨q, some (← s.replaceLayerAt path f)⟩ : Layer)) = _
        rw [ih]
        rfl
      rw [hlist, replaceFirst_append _ (l := ⟨q, some s⟩) hid hfront hinside]
      rfl

/-- Two layers that can be put in place of one can be put in place of each other. -/
theorem exists_common {k : Layer} (h : Swaps l m path a b) (hid : k.id = l.id) :
    ∃ c, Swaps l k path a c ∧ Swaps m k path b c := by
  induction h with
  | here hl hm hfront =>
      have hk := hid.trans hl
      exact ⟨_, .here hl hk hfront, .here hm hk hfront⟩
  | inside hq hfront _ ih =>
      obtain ⟨c, hac, hbc⟩ := ih
      exact ⟨_, .inside hq hfront hac, .inside hq hfront hbc⟩

/-! ## What is left alone -/

/-- A path that parts from the one to the layer leads where it led. -/
theorem layerAt?_of_diverges (h : Swaps l m path a b) {q : List String} (hqp : ¬ q <+: path)
    (hpq : ¬ path <+: q) : b.layerAt? q = a.layerAt? q := by
  induction h generalizing q with
  | @here id p front back hl hm hfront =>
      cases q with
      | nil => exact absurd List.nil_prefix hqp
      | cons other rest =>
          have hne : id ≠ other := fun heq =>
            hpq (heq ▸ List.cons_prefix_cons.mpr ⟨rfl, List.nil_prefix⟩)
          exact layerAt?_congr_of_ne hl hm hne rest
  | @inside id p front back k s t path hid hfront h ih =>
      cases q with
      | nil => exact absurd List.nil_prefix hqp
      | cons other rest =>
          by_cases heq : other = id
          · subst heq
            have hdown : ¬ rest <+: path ∧ ¬ path <+: rest := by
              rw [List.cons_prefix_cons] at hqp hpq
              exact ⟨fun hr => hqp ⟨rfl, hr⟩, fun hr => hpq ⟨rfl, hr⟩⟩
            have hrest : rest ≠ [] := fun hnil => hdown.1 (hnil ▸ List.nil_prefix)
            rw [layerAt?_cons _ _ hrest, layerAt?_cons _ _ hrest, child?_inside hid hfront,
              child?_inside hid hfront]
            exact ih hdown.1 hdown.2
          · exact layerAt?_congr_of_ne (l := ⟨k, some s⟩) (m := ⟨k, some t⟩) hid hid
              (Ne.symm heq) rest

/-- Only one child of a node on the path is changed, the first one with the id that is the next
    step. -/
theorem stateAt?_above (h : Swaps l m path a b) {q rest : List String} {id : String}
    (hpath : path = q ++ id :: rest) :
    ∃ p front back k j, a.stateAt? q = some ⟨p, some (front ++ k :: back)⟩ ∧
      b.stateAt? q = some ⟨p, some (front ++ j :: back)⟩ ∧ k.id = id ∧
      ∀ i ∈ front, i.id ≠ id := by
  induction h generalizing q with
  | here hl hm hfront =>
      obtain ⟨rfl, rfl, rfl⟩ : q = [] ∧ _ = id ∧ rest = [] := by
        cases q with
        | nil => simpa using hpath
        | cons next q => simp at hpath
      exact ⟨_, _, _, _, _, rfl, rfl, hl, hfront⟩
  | inside hid hfront h ih =>
      cases q with
      | nil =>
          obtain ⟨rfl, rfl⟩ := List.cons.inj hpath
          exact ⟨_, _, _, _, _, rfl, rfl, hid, hfront⟩
      | cons next q =>
          obtain ⟨rfl, hrest⟩ := List.cons.inj hpath
          obtain ⟨p, front, back, k, j, ha, hb, hk, hi⟩ := ih hrest
          refine ⟨p, front, back, k, j, ?_, ?_, hk, hi⟩
          · rw [stateAt?, child?_inside hid hfront]
            exact ha
          · rw [stateAt?, child?_inside hid hfront]
            exact hb

/-- A layer above keeps all that it is, and all settings except the layers on top of it. -/
theorem layerAt?_above (h : Swaps l m path a b) {q rest : List String} {id : String}
    (hpath : path = q ++ id :: rest) (hq : q ≠ []) :
    ∃ k p ls ls', a.layerAt? q = some ⟨k, some ⟨p, ls⟩⟩ ∧
      b.layerAt? q = some ⟨k, some ⟨p, ls'⟩⟩ := by
  induction h generalizing q with
  | here hl hm hfront =>
      cases q with
      | nil => exact absurd rfl hq
      | cons next q => simp at hpath
  | @inside id' p front back k s t path hid hfront h ih =>
      cases q with
      | nil => exact absurd rfl hq
      | cons next q =>
          obtain ⟨rfl, hrest⟩ := List.cons.inj hpath
          by_cases hnil : q = []
          · subst hnil
            obtain ⟨p', front', back', _, _, hs, ht, -⟩ := h.stateAt?_above (q := []) hrest
            obtain rfl := Option.some.inj hs
            obtain rfl := Option.some.inj ht
            exact ⟨k, p', _, _, child?_inside hid hfront, child?_inside hid hfront⟩
          · obtain ⟨k', p', ls, ls', ha, hb⟩ := ih hrest hnil
            refine ⟨k', p', ls, ls', ?_, ?_⟩
            · rw [layerAt?_cons _ _ hnil, child?_inside hid hfront]
              exact ha
            · rw [layerAt?_cons _ _ hnil, child?_inside hid hfront]
              exact hb

end Swaps

/-! ## What a change at a path is allowed to do -/

/-- Whether a tree differs from another one only at the end of a path and below it: other paths
lead where they led, and a node above keeps its settings and all its children but one. -/
structure AltersOnly (path : List String) (a b : State) : Prop where
  /-- What a path that parts from this one leads to. -/
  elsewhere : ∀ q, ¬ q <+: path → ¬ path <+: q → b.layerAt? q = a.layerAt? q
  /-- The layers on the way. -/
  layers : ∀ q id rest, path = q ++ id :: rest → ∀ k, a.layerAt? q = some k →
    ∃ ls, b.layerAt? q =
      some { k with transforms := k.transforms.map fun s => { s with layers := ls } }
  /-- The lists of children on the way, that of the root among them. -/
  children : ∀ q id rest, path = q ++ id :: rest → ∀ s, a.stateAt? q = some s →
    ∃ ls, b.stateAt? q = some { s with layers := ls } ∧
      ls.map List.length = s.layers.map List.length ∧
      ∀ i, i ≠ s.layerList.findIdx (·.id = id) → (ls.getD [])[i]? = s.layerList[i]?
  /-- The layer at the end of the path, apart from its settings. -/
  props : (b.layerAt? path).map Layer.props = (a.layerAt? path).map Layer.props

/-- A change of nothing alters nothing. -/
theorem AltersOnly.refl (path : List String) (a : State) : AltersOnly path a a where
  elsewhere _ _ _ := rfl
  layers q id rest hq k hk := by
    obtain ⟨p, _ | ⟨q, ls⟩⟩ := k
    · exact ⟨none, hk⟩
    · exact ⟨ls, hk⟩
  children q id rest hq s hs := by
    obtain ⟨p, ls⟩ := s
    exact ⟨ls, hs, rfl, fun i _ => rfl⟩
  props := rfl

/-- At the root everything may be altered. -/
theorem altersOnly_nil (a b : State) : AltersOnly [] a b where
  elsewhere _ _ hpq := absurd List.nil_prefix hpq
  layers q id rest hq := by simp at hq
  children q id rest hq := by simp at hq
  props := rfl

theorem Swaps.altersOnly (h : Swaps l m path a b) (hprops : m.props = l.props) :
    AltersOnly path a b where
  elsewhere q hqp hpq := h.layerAt?_of_diverges hqp hpq
  layers q id rest hpath k hk := by
    by_cases hq : q = []
    · subst hq
      cases hk
    · obtain ⟨k', p, ls, ls', ha, hb⟩ := h.layerAt?_above hpath hq
      obtain rfl := Option.some.inj (hk.symm.trans ha)
      exact ⟨ls', hb⟩
  children q id rest hpath s hs := by
    obtain ⟨p, front, back, k, j, ha, hb, hk, hfront⟩ := h.stateAt?_above hpath
    obtain rfl := Option.some.inj (hs.symm.trans ha)
    refine ⟨_, hb, by simp, fun i hi => ?_⟩
    have hne : i ≠ front.length := by
      rwa [show layerList ⟨p, some (front ++ k :: back)⟩ = front ++ k :: back from rfl,
        findIdx_append hk hfront] at hi
    show (front ++ j :: back)[i]? = (front ++ k :: back)[i]?
    rw [List.getElem?_append, List.getElem?_append]
    split
    · rfl
    · obtain ⟨n, hn⟩ : ∃ n, i - front.length = n + 1 := ⟨i - front.length - 1, by omega⟩
      rw [hn, List.getElem?_cons_succ, List.getElem?_cons_succ]
  props := by
    rw [h.layerAt?_eq, h.symm.layerAt?_eq, Option.map_some, Option.map_some, hprops]

/-! ## New settings for a layer -/

/-- The layer with new settings, which name no image. -/
theorem Swaps.setTransformsAt_eq {t : State}
    (h : Swaps l { l with transforms := some t.withoutIdentity } path a b) :
    a.setTransformsAt path t = .ok b :=
  h.replaceLayerAt_eq rfl

/-- Writing at a path fails only for want of a layer, and then the path leads to none. -/
theorem setTransformsAt_error_iff (root : State) {path : List String} (hpath : path ≠ [])
    (t : State) :
    (∃ w, root.setTransformsAt path t = .error (.layerMissing w)) ↔ root.layerAt? path = none := by
  constructor
  · rintro ⟨w, hw⟩
    cases hl : root.layerAt? path with
    | none => rfl
    | some l =>
        obtain ⟨b, hb⟩ := exists_swaps (m := { l with transforms := some t.withoutIdentity }) hl rfl
        rw [hb.setTransformsAt_eq] at hw
        cases hw
  · intro hnone
    cases hset : root.setTransformsAt path t with
    | error x =>
        obtain ⟨w, rfl⟩ := layerMissing_of_replaceLayerAt hpath hset
        exact ⟨w, rfl⟩
    | ok root' =>
        -- The path would still lead somewhere, so it led somewhere before.
        have hresolves : root.Resolves path := by
          rw [setTransformsAt, replaceLayerAt] at hset
          obtain ⟨init, id, rfl⟩ : ∃ init id, path = init ++ [id] :=
            ⟨_, _, (List.dropLast_concat_getLast hpath).symm⟩
          rw [List.getLast?_concat] at hset
          rw [List.dropLast_concat] at hset
          obtain ⟨-, s, ls, hs, hls, -⟩ := updateLayersAt_ok hset
          obtain ⟨l, -, hl, -⟩ := replaceFirst_ok hls
          exact Resolves.snoc hs hl
        have hsome := (isSome_layerAt? hpath).mpr hresolves
        rw [hnone] at hsome
        cases hsome

/-- Where a path leads to a layer, writing there gives it the new settings and alters nothing else,
    and the last of two writes counts. -/
theorem setTransformsAt_ok {root : State} {path : List String} {l : Layer}
    (h : root.layerAt? path = some l) (t : State) :
    ∃ root', root.setTransformsAt path t = .ok root' ∧
      root'.layerAt? path = some { l with transforms := some t.withoutIdentity } ∧
      AltersOnly path root root' ∧
      ∀ u, root'.setTransformsAt path u = root.setTransformsAt path u := by
  obtain ⟨root', hswap⟩ :=
    exists_swaps (m := { l with transforms := some t.withoutIdentity }) h rfl
  refine ⟨root', hswap.setTransformsAt_eq, hswap.symm.layerAt?_eq, hswap.altersOnly rfl,
    fun u => ?_⟩
  obtain ⟨c, hroot, hroot'⟩ :=
    hswap.exists_common (k := { l with transforms := some u.withoutIdentity }) rfl
  rw [hroot.setTransformsAt_eq]
  exact Swaps.setTransformsAt_eq hroot'

end State

end Retouch
