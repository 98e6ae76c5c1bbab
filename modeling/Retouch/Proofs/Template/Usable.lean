/-
  The layers that an import leaves out.

  An import goes through the layers of a template and leaves out those without an image or a size.
  It looks into the settings of the layers that stay, and there does the same (`Entries.Inside`
  says what it looks into).  Each list of layers that it comes by keeps exactly its usable ones, in
  their order, and of each entry around them nothing changes (`Entries.KeepsUsable`); the number
  that it gives is that of the places where it left one out (`Entries.Loses`); and what is left has
  nothing more to leave out.  All of it stands in `usableLayers_keeps_usable`.
-/
import Mathlib
import Retouch.Proofs.Template.Malformed

namespace Retouch

/-! ## What is looked into -/

/-- Settings at a path within entries.  Each index of the path is that of a usable layer, counted
    among the usable ones of its list. -/
inductive Entries.Inside : Entries → List Nat → Entries → Prop where
  | here (es : Entries) : Inside es [] es
  | layer {es fs ts us : Entries} {vs : List Value} {i : Nat} {path : List Nat}
      (layers : es.lookup "layers" = some (.list vs))
      (item : (vs.filter Value.isUsableLayer)[i]? = some (.object fs))
      (settings : fs.lookup "transforms" = some (.object ts)) (inside : Inside ts path us) :
      Inside es (i :: path) us

/-- Whether the list of layers at a path has an unusable one at an index. -/
def Entries.Loses (es : Entries) (place : List Nat × Nat) : Prop :=
  ∃ ts vs v, es.Inside place.1 ts ∧ ts.lookup "layers" = some (.list vs) ∧
    vs[place.2]? = some v ∧ v.isUsableLayer = false

/-- Whether a layer is another one but for what its settings are, if they are an object. -/
inductive Value.KeepsLayer : Value → Value → Prop where
  | plain {fs : Entries} (h : ∀ ts, fs.lookup "transforms" ≠ some (.object ts)) :
      KeepsLayer (.object fs) (.object fs)
  | settings {fs ts : Entries} (h : fs.lookup "transforms" = some (.object ts)) (us : Entries) :
      KeepsLayer (.object fs) (.object (fs.put "transforms" (.object us)))

/-- Whether entries are others but that their list of layers, if there is one, has kept the usable
    ones, in order and each of them but for its settings. -/
inductive Entries.KeepsUsable : Entries → Entries → Prop where
  | plain {es : Entries} (h : ∀ vs, es.lookup "layers" ≠ some (.list vs)) : KeepsUsable es es
  | layers {es : Entries} {vs ws : List Value} (h : es.lookup "layers" = some (.list vs))
      (kept : List.Forall₂ Value.KeepsLayer (vs.filter Value.isUsableLayer) ws)
      (usable : ∀ l ∈ ws, l.isUsableLayer = true) : KeepsUsable es (es.put "layers" (.list ws))

theorem Entries.Inside.eq_of_nil {es ts : Entries} (h : es.Inside [] ts) : ts = es := by
  cases h
  rfl

theorem Entries.inside_singleton {es ts : Entries} {i : Nat} :
    es.Inside [i] ts ↔ ∃ (vs : List Value) (fs : Entries), es.lookup "layers" = some (.list vs) ∧
      (vs.filter Value.isUsableLayer)[i]? = some (.object fs) ∧
      fs.lookup "transforms" = some (.object ts) := by
  constructor
  · intro h
    cases h with
    | layer layers item settings inside =>
        exact ⟨_, _, layers, item, inside.eq_of_nil ▸ settings⟩
  · rintro ⟨vs, fs, layers, item, settings⟩
    exact .layer layers item settings (.here ts)

/-- A path leads through the settings of one layer to the rest of it. -/
theorem Entries.inside_cons {es us : Entries} {i : Nat} {path : List Nat} :
    es.Inside (i :: path) us ↔ ∃ ts, es.Inside [i] ts ∧ ts.Inside path us := by
  constructor
  · intro h
    cases h with
    | @layer es fs ts us vs i path layers item settings inside =>
        exact ⟨ts, .layer layers item settings (.here ts), inside⟩
  · rintro ⟨ts, hfirst, hrest⟩
    obtain ⟨vs, fs, layers, item, settings⟩ := inside_singleton.mp hfirst
    exact .layer layers item settings hrest

theorem Entries.loses_cons {es : Entries} {i j : Nat} {path : List Nat} :
    es.Loses (i :: path, j) ↔ ∃ ts, es.Inside [i] ts ∧ ts.Loses (path, j) := by
  unfold Loses
  constructor
  · rintro ⟨us, vs, v, hinside, rest⟩
    obtain ⟨ts, hfirst, hrest⟩ := inside_cons.mp hinside
    exact ⟨ts, hfirst, us, vs, v, hrest, rest⟩
  · rintro ⟨ts, hfirst, us, vs, v, hrest, rest⟩
    exact ⟨us, vs, v, inside_cons.mpr ⟨ts, hfirst, hrest⟩, rest⟩

/-! ## Induction on what is looked into -/

theorem sizeOf_lt_of_lookup {key : String} {es : Entries} {v : Value}
    (h : es.lookup key = some v) : sizeOf v < sizeOf es := by
  induction es with
  | nil => cases h
  | cons e es ih =>
      obtain ⟨k, w⟩ := e
      rw [Entries.lookup] at h
      split at h
      · cases h
        simp only [List.cons.sizeOf_spec, Prod.mk.sizeOf_spec]
        omega
      · have hrest := ih h
        simp only [List.cons.sizeOf_spec]
        omega

theorem Entries.Inside.sizeOf_lt {es ts : Entries} {i : Nat} (h : es.Inside [i] ts) :
    sizeOf ts < sizeOf es := by
  obtain ⟨vs, fs, layers, item, settings⟩ := inside_singleton.mp h
  have hlist := sizeOf_lt_of_lookup layers
  have hitem := List.sizeOf_lt_of_mem (List.mem_of_mem_filter (List.mem_of_getElem? item))
  have hsettings := sizeOf_lt_of_lookup settings
  simp only [Value.list.sizeOf_spec, Value.object.sizeOf_spec] at hlist hitem hsettings
  omega

/-- What holds of entries if it holds of the settings of their layers holds of all entries. -/
theorem Entries.induction_inside {P : Entries → Prop}
    (step : ∀ es : Entries, (∀ i ts, es.Inside [i] ts → P ts) → P es) (es : Entries) : P es :=
  step es fun _ ts h =>
    have := h.sizeOf_lt
    induction_inside step ts
termination_by sizeOf es

/-! ## One list of layers -/

/-- How many layers are left out of the settings of a layer. -/
def Value.lost : Value → Nat
  | .object es => (usableTransforms es).2
  | _ => 0

/-- Counted are the layers that a list does not keep, and what is left out of those it keeps. -/
theorem usableItems_snd (vs : List Value) :
    (usableItems vs).2 = vs.countP (fun v => !v.isUsableLayer) +
      ((vs.filter Value.isUsableLayer).map Value.lost).sum := by
  induction vs with
  | nil => rw [usableItems]; rfl
  | cons v vs ih =>
      cases husable : v.isUsableLayer with
      | true =>
          obtain ⟨es, rfl⟩ := Value.exists_of_isUsableLayer husable
          simp only [usableItems, husable, ih, List.filter_cons, List.countP_cons, List.map_cons,
            List.sum_cons, Value.lost, if_true, Bool.not_true, Bool.false_eq_true, if_false,
            Nat.add_zero]
          omega
      | false => cases v <;> simp [usableItems, husable, ih, Nat.add_right_comm]

/-- A layer is usable by its image and its size, which its settings have no part in. -/
theorem Value.isUsableLayer_tidied (v : Value) : v.tidied.isUsableLayer = v.isUsableLayer := by
  cases v with
  | object es =>
      have hfirst : ∀ {first second : String}, first ≠ "transforms" → second ≠ "transforms" →
          Entries.firstOf first second (usableTransforms es).1 =
            Entries.firstOf first second es := by
        intro first second h₁ h₂
        rw [Entries.firstOf, Entries.firstOf, lookup_usableTransforms_of_ne h₁,
          lookup_usableTransforms_of_ne h₂]
      rw [tidied, isUsableLayer, isUsableLayer, hfirst (by decide) (by decide),
        hfirst (by decide) (by decide)]
  | _ => rfl

theorem filter_usableItems (vs : List Value) :
    (usableItems vs).1.filter Value.isUsableLayer = (usableItems vs).1 := by
  refine List.filter_eq_self.mpr fun l hl => ?_
  rw [usableItems_fst] at hl
  obtain ⟨v, hv, rfl⟩ := List.mem_map.mp hl
  rw [Value.isUsableLayer_tidied]
  exact List.of_mem_filter hv

theorem getElem?_usableItems (vs : List Value) (i : Nat) :
    (usableItems vs).1[i]? = (vs.filter Value.isUsableLayer)[i]?.map Value.tidied := by
  rw [usableItems_fst, List.getElem?_map]

/-- A layer that stays changes in nothing but its settings. -/
theorem Value.keepsLayer_tidied {v : Value} (h : v.isUsableLayer = true) :
    v.KeepsLayer v.tidied := by
  obtain ⟨es, rfl⟩ := exists_of_isUsableLayer h
  rw [tidied]
  rcases usableTransforms_cases es with ⟨ts, hts, heq⟩ | ⟨hnone, heq⟩
  · rw [heq]
    exact .settings hts _
  · rw [heq]
    exact .plain hnone

theorem Entries.keepsUsable_usableLayers (es : Entries) : es.KeepsUsable (usableLayers es).1 := by
  rcases usableLayers_cases es with ⟨vs, hvs, heq⟩ | ⟨hnone, heq⟩
  · rw [heq]
    refine .layers hvs ?_ (List.filter_eq_self.mp (filter_usableItems vs))
    rw [usableItems_fst, List.forall₂_map_right_iff, List.forall₂_same]
    exact fun v hv => Value.keepsLayer_tidied (List.of_mem_filter hv)
  · rw [heq]
    exact .plain hnone

/-! ## All lists of layers -/

/-- What is looked into is at the same path afterwards, without its unusable layers. -/
theorem Entries.Inside.usableLayers {es ts : Entries} {path : List Nat} (h : es.Inside path ts) :
    Entries.Inside (usableLayers es).1 path (Retouch.usableLayers ts).1 := by
  induction h with
  | here es => exact .here _
  | @layer es fs ts us vs i path layers item settings _ ih =>
      have hlayers : Entries.lookup "layers" (Retouch.usableLayers es).1 =
          some (.list (usableItems vs).1) := by
        rw [lookup_usableLayers, layers]
        rfl
      have hitem : ((usableItems vs).1.filter Value.isUsableLayer)[i]? =
          some (.object (usableTransforms fs).1) := by
        rw [filter_usableItems, getElem?_usableItems, item]
        rfl
      have hsettings : Entries.lookup "transforms" (usableTransforms fs).1 =
          some (.object (Retouch.usableLayers ts).1) := by
        rw [lookup_usableTransforms, settings]
        rfl
      exact .layer hlayers hitem hsettings ih

/-- Nothing is looked into afterwards that was not before. -/
theorem Entries.exists_inside_of_usableLayers {es us : Entries} {path : List Nat}
    (h : Entries.Inside (usableLayers es).1 path us) : ∃ ts, es.Inside path ts := by
  -- By induction on the way through what is left: each step of it comes of a step before.
  obtain ⟨kept, hkept⟩ : ∃ kept, (usableLayers es).1 = kept := ⟨_, rfl⟩
  rw [hkept] at h
  induction h generalizing es with
  | here => exact ⟨es, .here es⟩
  | layer layers item settings _ ih =>
      obtain ⟨vs, hvs, rfl⟩ := exists_list_of_usableLayers (hkept ▸ layers)
      rw [filter_usableItems, getElem?_usableItems] at item
      obtain ⟨l, hl, hobject⟩ := Option.map_eq_some_iff.mp item
      obtain ⟨fs, rfl⟩ :=
        Value.exists_of_isUsableLayer (List.of_mem_filter (List.mem_of_getElem? hl))
      cases hobject
      obtain ⟨ts, hts, rfl⟩ := exists_object_of_usableTransforms settings
      obtain ⟨us, hus⟩ := ih rfl
      exact ⟨us, .layer hvs hl hts hus⟩

/-- Settings of which nothing more can be left out leave nothing to do in their layer. -/
theorem Value.tidied_of_known {v : Value} (h : v.isUsableLayer = true)
    (known : ∀ fs ts : Entries, v = .object fs → fs.lookup "transforms" = some (.object ts) →
      usableLayers (usableLayers ts).1 = ((usableLayers ts).1, 0)) :
    v.tidied.tidied = v.tidied ∧ v.tidied.lost = 0 := by
  obtain ⟨fs, rfl⟩ := exists_of_isUsableLayer h
  have hagain : usableTransforms (usableTransforms fs).1 = ((usableTransforms fs).1, 0) := by
    refine usableTransforms_eq_self fun us hus => ?_
    obtain ⟨ts, hts, rfl⟩ := exists_object_of_usableTransforms hus
    exact known fs ts rfl hts
  simp [tidied, lost, hagain]

/-- What is left has nothing more to leave out. -/
theorem usableLayers_usableLayers (es : Entries) :
    usableLayers (usableLayers es).1 = ((usableLayers es).1, 0) := by
  induction es using Entries.induction_inside with
  | step es ih =>
      -- Only a list of layers could change: it has usable layers alone, and of the settings of each
      -- this is known by induction.
      refine usableLayers_eq_self fun ws hws => ?_
      obtain ⟨vs, hvs, rfl⟩ := exists_list_of_usableLayers hws
      have hagain : ∀ l ∈ (usableItems vs).1, l.tidied = l ∧ l.lost = 0 := by
        intro l hl
        obtain ⟨i, hi⟩ := List.getElem?_of_mem hl
        rw [getElem?_usableItems] at hi
        obtain ⟨v, hv, rfl⟩ := Option.map_eq_some_iff.mp hi
        refine Value.tidied_of_known (List.of_mem_filter (List.mem_of_getElem? hv)) ?_
        rintro fs ts rfl hts
        exact ih i ts (Entries.inside_singleton.mpr ⟨vs, fs, hvs, hv, hts⟩)
      have hnone : (usableItems vs).1.countP (fun v => !v.isUsableLayer) = 0 := by
        rw [List.countP_eq_zero, ← filter_usableItems]
        intro l hl
        simp [List.of_mem_filter hl]
      have hlost : ((usableItems vs).1.map Value.lost).sum = 0 := by
        rw [List.map_congr_left fun l hl => (hagain l hl).2]
        simp
      refine Prod.ext ?_ ?_
      · rw [usableItems_fst (usableItems vs).1, filter_usableItems,
          List.map_congr_left fun l hl => (hagain l hl).1, List.map_id']
      · rw [usableItems_snd, filter_usableItems, hnone, hlost]

/-! ## How many layers are left out -/

/-- The place of a layer in the list at hand. -/
def hereAt : Nat ↪ List Nat × Nat := ⟨fun i => ([], i), fun _ _ h => (Prod.mk.inj h).2⟩

/-- A place in the settings of a layer, as seen from outside. -/
def below (j : Nat) : List Nat × Nat ↪ List Nat × Nat where
  toFun place := (j :: place.1, place.2)
  inj' place other h := by
    obtain ⟨hpath, hindex⟩ := Prod.mk.inj h
    exact Prod.ext (List.cons.inj hpath).2 hindex

/-- The path of a place tells which layer it is in, so that none is counted twice. -/
theorem card_places {n : Nat} (here : Finset Nat) (inner : Fin n → Finset (List Nat × Nat)) :
    (here.map hereAt ∪ Finset.univ.biUnion fun j => (inner j).map (below j)).card =
      here.card + ∑ j, (inner j).card := by
  have hroot : Disjoint (here.map hereAt)
      (Finset.univ.biUnion fun j => (inner j).map (below j)) := by
    rw [Finset.disjoint_left]
    intro place hplace hother
    obtain ⟨i, -, rfl⟩ := Finset.mem_map.mp hplace
    obtain ⟨j, -, hj⟩ := Finset.mem_biUnion.mp hother
    obtain ⟨place, -, heq⟩ := Finset.mem_map.mp hj
    cases heq
  have hapart : ((Finset.univ : Finset (Fin n)) : Set (Fin n)).PairwiseDisjoint
      fun j => (inner j).map (below j) := by
    intro j _ k _ hne
    rw [Function.onFun, Finset.disjoint_left]
    intro place hj hk
    obtain ⟨p, -, rfl⟩ := Finset.mem_map.mp hj
    obtain ⟨q, -, heq⟩ := Finset.mem_map.mp hk
    exact hne (Fin.ext (List.cons.inj (Prod.mk.inj heq).1).1.symm)
  rw [Finset.card_union_of_disjoint hroot, Finset.card_biUnion hapart]
  simp only [Finset.card_map]

/-- The places in one list are as many as its unusable layers. -/
theorem exists_places_of_list (vs : List Value) :
    ∃ places : Finset Nat,
      (∀ i, i ∈ places ↔ ∃ v, vs[i]? = some v ∧ v.isUsableLayer = false) ∧
      places.card = vs.countP fun v => !v.isUsableLayer := by
  refine ⟨(vs.findIdxs fun v => !v.isUsableLayer).toFinset, fun i => ?_, ?_⟩
  · rw [List.mem_toFinset, List.mem_findIdxs_iff_exists_getElem_pos]
    simp [List.getElem?_eq_some_iff]
  · rw [List.toFinset_card_of_nodup List.nodup_findIdxs, List.length_findIdxs]

/-- The places inside one usable layer are as many as it lost, if that is known of its settings. -/
theorem exists_places_of_layer {es : Entries} {vs : List Value}
    (layers : es.lookup "layers" = some (.list vs))
    (known : ∀ i ts, es.Inside [i] ts → ∃ places : Finset (List Nat × Nat),
      (∀ place, place ∈ places ↔ ts.Loses place) ∧ places.card = (usableLayers ts).2)
    (j : Fin (vs.filter Value.isUsableLayer).length) :
    ∃ places : Finset (List Nat × Nat),
      (∀ place, place ∈ places ↔ es.Loses (below j place)) ∧
      places.card = ((vs.filter Value.isUsableLayer)[j]).lost := by
  obtain ⟨fs, hfs⟩ := Value.exists_of_isUsableLayer (List.of_mem_filter (List.getElem_mem j.isLt))
  have hitem : (vs.filter Value.isUsableLayer)[j.val]? = some (.object fs) :=
    hfs ▸ List.getElem?_eq_getElem j.isLt
  have hinside : ∀ ts, es.Inside [j.val] ts ↔ fs.lookup "transforms" = some (.object ts) := by
    intro ts
    rw [Entries.inside_singleton]
    constructor
    · rintro ⟨ws, gs, hws, hgs, hts⟩
      cases layers.symm.trans hws
      cases hitem.symm.trans hgs
      exact hts
    · exact fun hts => ⟨vs, fs, layers, hitem, hts⟩
  have hlost : ((vs.filter Value.isUsableLayer)[j]).lost = (usableTransforms fs).2 :=
    congrArg Value.lost hfs
  rcases usableTransforms_cases fs with ⟨ts, hts, heq⟩ | ⟨hnone, heq⟩
  · obtain ⟨places, hplaces, hcard⟩ := known j ts ((hinside ts).mpr hts)
    refine ⟨places, fun place => ?_, by rw [hcard, hlost, heq]⟩
    rw [hplaces]
    refine Iff.trans ?_ Entries.loses_cons.symm
    constructor
    · exact fun h => ⟨ts, (hinside ts).mpr hts, h⟩
    · rintro ⟨us, hus, h⟩
      cases hts.symm.trans ((hinside us).mp hus)
      exact h
  · refine ⟨∅, fun place => ?_, by rw [hlost, heq]; rfl⟩
    refine Iff.trans ?_ Entries.loses_cons.symm
    simp [hinside, hnone]

/-- Without a list of layers there is nothing to leave out. -/
theorem Entries.not_loses {es : Entries} (h : ∀ vs, es.lookup "layers" ≠ some (.list vs))
    (place : List Nat × Nat) : ¬ es.Loses place := by
  obtain ⟨path, i⟩ := place
  intro hloses
  cases path with
  | nil =>
      obtain ⟨ts, vs, v, hinside, hlayers, -⟩ := hloses
      exact h vs (hinside.eq_of_nil ▸ hlayers)
  | cons j path =>
      obtain ⟨ts, hinside, -⟩ := loses_cons.mp hloses
      obtain ⟨vs, fs, hlayers, -⟩ := inside_singleton.mp hinside
      exact h vs hlayers

/-- A layer is left out of the list at hand, or inside a usable layer of it. -/
theorem Entries.loses_iff {es : Entries} {vs : List Value}
    (layers : es.lookup "layers" = some (.list vs)) (place : List Nat × Nat) :
    es.Loses place ↔
      (∃ i, (∃ v, vs[i]? = some v ∧ v.isUsableLayer = false) ∧ hereAt i = place) ∨
      ∃ (j : Fin (vs.filter Value.isUsableLayer).length) (inner : List Nat × Nat),
        es.Loses (below j inner) ∧ below j inner = place := by
  constructor
  · intro h
    obtain ⟨path, i⟩ := place
    cases path with
    | nil =>
        obtain ⟨ts, ws, v, hinside, hws, hv, husable⟩ := h
        cases hinside.eq_of_nil
        cases layers.symm.trans hws
        exact .inl ⟨i, ⟨v, hv, husable⟩, rfl⟩
    | cons j path =>
        obtain ⟨ts, hinside, -⟩ := loses_cons.mp h
        obtain ⟨ws, fs, hws, hitem, -⟩ := inside_singleton.mp hinside
        cases layers.symm.trans hws
        exact .inr ⟨⟨j, (List.getElem?_eq_some_iff.mp hitem).1⟩, (path, i), h, rfl⟩
  · rintro (⟨i, ⟨v, hv, husable⟩, rfl⟩ | ⟨j, inner, h, rfl⟩)
    · exact ⟨es, vs, v, .here es, layers, hv, husable⟩
    · exact h

/-- The places where layers are left out are as many as is counted. -/
theorem Entries.exists_places (es : Entries) :
    ∃ places : Finset (List Nat × Nat), (∀ place, place ∈ places ↔ es.Loses place) ∧
      places.card = (usableLayers es).2 := by
  induction es using Entries.induction_inside with
  | step es ih =>
      rcases usableLayers_cases es with ⟨vs, hvs, heq⟩ | ⟨hnone, heq⟩
      · obtain ⟨here, hhere, hherecard⟩ := exists_places_of_list vs
        choose inner hinner hinnercard using exists_places_of_layer hvs ih
        refine ⟨here.map hereAt ∪ Finset.univ.biUnion fun j => (inner j).map (below j),
          fun place => ?_, ?_⟩
        · rw [loses_iff hvs]
          simp only [Finset.mem_union, Finset.mem_biUnion, Finset.mem_map, Finset.mem_univ,
            true_and, hhere, hinner]
        · rw [card_places here inner, hherecard, heq, usableItems_snd, ← Fin.sum_univ_fun_getElem]
          exact congrArg _ (Finset.sum_congr rfl fun j _ => hinnercard j)
      · refine ⟨∅, fun place => ?_, by rw [heq]; rfl⟩
        simp [not_loses hnone place]

/-! ## What an import leaves -/

/-- Whether entries are what is left of others by leaving layers out of every list that is looked
    into.  At each path the usable layers stay, as they were but for their settings, which are those
    further down the path; no path is new; and a number tells in how many places there was a layer
    that is left out. -/
structure Entries.Leaves (es us : Entries) (n : Nat) : Prop where
  inside : ∀ path ts, es.Inside path ts → ∃ ts', us.Inside path ts' ∧ ts.KeepsUsable ts'
  only : ∀ path ts', us.Inside path ts' → ∃ ts, es.Inside path ts
  count : ∃ places : Finset (List Nat × Nat),
    (∀ place, place ∈ places ↔ es.Loses place) ∧ places.card = n

/-- Leaving the unusable layers out keeps the usable ones at every depth and all else as it was,
    counts those that it leaves out, and has nothing to leave out when it is done again. -/
theorem usableLayers_keeps_usable (es : Entries) :
    es.Leaves (usableLayers es).1 (usableLayers es).2 ∧
      usableLayers (usableLayers es).1 = ((usableLayers es).1, 0) := by
  refine ⟨⟨fun path ts h => ?_, fun path ts' h => ?_, es.exists_places⟩,
    usableLayers_usableLayers es⟩
  · exact ⟨(usableLayers ts).1, h.usableLayers, ts.keepsUsable_usableLayers⟩
  · exact Entries.exists_inside_of_usableLayers h

/-- Of a layer without an image its own layers are not counted. -/
example :
    let size := Value.object [("width", .int 4), ("height", .int 3)]
    let layer := fun (path : String) (inside : List Value) => Value.object
      [("imagePath", .text path), ("originalDimensions", size),
        ("transforms", .object [("layers", .list inside)])]
    usableLayers [("layers", .list [layer "" [.null], layer "a.png" [.null, layer "b.png" []]])] =
      ([("layers", .list [layer "a.png" [layer "b.png" []]])], 2) := by
  cbv

end Retouch
