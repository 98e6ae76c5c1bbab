/-
  What a new order and a removal do to the layers of the context.

  A new order is checked against the ids of the layers, each taken once, and built by looking up the
  last layer with each of the ids given.  Both see an id and not a layer.  As long as the ids are
  distinct an order that is accepted gives the same layers again; where two layers share an id, the
  accepted order drops all of them but the last (`reordered_perm_iff`).

  A removal leaves out every layer with the id.  It takes a single layer away exactly if the id
  occurs once (`withoutOne_filter_iff`).  Neither operation fails half way: a refused order and the
  removal of a missing layer leave the editor as it was (`conserves_layers`).
-/
import Mathlib.Data.List.Nodup
import Retouch.Proofs.Editor.Travel
import Retouch.Proofs.Tree.Lens

namespace Retouch.Editor

open Edit

/-! ## Ids, each taken once -/

theorem nodup_eraseDups (ids : List String) : ids.eraseDups.Nodup := by
  -- What follows an id is without it, and shorter; so the induction is on the length.
  induction hn : ids.length using Nat.strongRecOn generalizing ids with
  | _ n ih =>
      cases ids with
      | nil => exact List.nodup_nil
      | cons id rest =>
          rw [List.eraseDups_cons, List.nodup_cons]
          have hlength := List.length_filter_le (fun other => !other == id) rest
          rw [List.length_cons] at hn
          refine ⟨?_, ih _ (by omega) _ rfl⟩
          intro hid
          have hmem := List.mem_filter.mp (List.mem_eraseDups.mp hid)
          simp at hmem

variable {layers : List Layer} {ids : List String} {id : String} {l : Layer}

theorem nodup_distinctIds (layers : List Layer) : (distinctIds layers).Nodup :=
  nodup_eraseDups _

theorem mem_distinctIds : id ∈ distinctIds layers ↔ id ∈ layers.map Layer.id :=
  List.mem_eraseDups

/-- Among layers with distinct ids nothing is left out when each id is taken once. -/
theorem perm_distinctIds (hnodup : (layers.map Layer.id).Nodup) :
    (distinctIds layers).Perm (layers.map Layer.id) := by
  rw [List.perm_ext_iff_of_nodup (nodup_distinctIds layers) hnodup]
  exact fun _ => mem_distinctIds

/-! ## Looking up -/

theorem id_of_lastWithId? (h : lastWithId? layers id = some l) : l.id = id := by
  have hid := List.find?_some h
  exact of_decide_eq_true hid

theorem exists_lastWithId? (hid : id ∈ layers.map Layer.id) :
    ∃ l, lastWithId? layers id = some l := by
  obtain ⟨l, hl, hlid⟩ := List.mem_map.mp hid
  apply Option.isSome_iff_exists.mp
  unfold lastWithId?
  rw [List.find?_isSome]
  exact ⟨l, List.mem_reverse.mpr hl, decide_eq_true hlid⟩

/-- Among layers with distinct ids each is the last with its id. -/
theorem lastWithId?_of_mem (hnodup : (layers.map Layer.id).Nodup) (hl : l ∈ layers) :
    lastWithId? layers l.id = some l := by
  have hreverse : (layers.reverse.map Layer.id).Nodup := by
    rw [List.map_reverse]
    exact List.nodup_reverse.mpr hnodup
  exact findLayer?_of_mem hreverse (List.mem_reverse.mpr hl)

/-! ## A new order -/

theorem reordered_eq (hperm : ids.Perm (distinctIds layers)) :
    reordered layers ids = .ok (ids.filterMap (lastWithId? layers)) := by
  rw [reordered, if_pos (List.isPerm_iff.mpr hperm)]

theorem reordered_refused (hperm : ¬ ids.Perm (distinctIds layers)) :
    reordered layers ids = .error (.value .orderMismatch) := by
  rw [reordered, if_neg fun h => hperm (List.isPerm_iff.mp h)]

/-- Layers that are looked up by ids that all occur spell out these ids. -/
theorem map_id_filterMap (hids : ∀ id ∈ ids, id ∈ layers.map Layer.id) :
    (ids.filterMap (lastWithId? layers)).map Layer.id = ids := by
  induction ids with
  | nil => rfl
  | cons id rest ih =>
      obtain ⟨l, hl⟩ := exists_lastWithId? (hids id List.mem_cons_self)
      have hrest := ih fun other hother => hids other (List.mem_cons_of_mem id hother)
      rw [List.filterMap_cons_some hl, List.map_cons, id_of_lastWithId? hl, hrest]

/-- Layers with distinct ids that are looked up one after the other are all found again. -/
theorem filterMap_map_id (hnodup : (layers.map Layer.id).Nodup) :
    (layers.map Layer.id).filterMap (lastWithId? layers) = layers := by
  rw [List.filterMap_map]
  calc layers.filterMap (lastWithId? layers ∘ Layer.id)
      = layers.filterMap some := List.filterMap_congr fun _ hl => lastWithId?_of_mem hnodup hl
    _ = layers := List.filterMap_some

/-- The ids of a new order are those that were given. -/
theorem map_id_reordered (hperm : ids.Perm (distinctIds layers)) :
    (ids.filterMap (lastWithId? layers)).map Layer.id = ids :=
  map_id_filterMap fun _ hid => mem_distinctIds.mp (hperm.mem_iff.mp hid)

/-- A new order has the layers that were there, and as many of each, exactly if no two of them
    share an id. -/
theorem reordered_perm_iff (hperm : ids.Perm (distinctIds layers)) :
    (ids.filterMap (lastWithId? layers)).Perm layers ↔ (layers.map Layer.id).Nodup := by
  constructor
  · intro hsame
    -- The same layers have the same ids, and the ids given are distinct.
    have hids : ids.Perm (layers.map Layer.id) := by
      have hmap := hsame.map Layer.id
      rwa [map_id_reordered hperm] at hmap
    exact (hids.symm.trans hperm).nodup_iff.mpr (nodup_distinctIds layers)
  · intro hnodup
    have hids : ids.Perm (layers.map Layer.id) := hperm.trans (perm_distinctIds hnodup)
    have hlayers := hids.filterMap (lastWithId? layers)
    rwa [filterMap_map_id hnodup] at hlayers

/-! ## Leaving out -/

/-- Whether a list is another one without one of its elements, the others in their order. -/
def WithoutOne (layers out : List Layer) : Prop :=
  ∃ front l back, layers = front ++ l :: back ∧ out = front ++ back

/-- How often an id occurs among layers. -/
def occurrences (id : String) (layers : List Layer) : Nat := layers.countP (·.id = id)

theorem occurrences_eq_zero : occurrences id layers = 0 ↔ findLayer? id layers = none := by
  unfold occurrences findLayer?
  rw [List.countP_eq_zero, List.find?_eq_none]

theorem occurrences_append_cons {front back : List Layer} (hid : l.id = id) :
    occurrences id (front ++ l :: back) = occurrences id front + occurrences id back + 1 := by
  unfold occurrences
  rw [List.countP_append, List.countP_cons_of_pos (by simpa using hid), Nat.add_assoc]

/-- What is left, and what is left out, is all. -/
theorem length_filter_add_occurrences (id : String) (layers : List Layer) :
    (layers.filter (·.id ≠ id)).length + occurrences id layers = layers.length := by
  have hsplit := List.length_eq_countP_add_countP (fun l : Layer => decide (l.id ≠ id)) (l := layers)
  rw [List.countP_eq_length_filter] at hsplit
  rw [hsplit, occurrences]
  congr 1
  exact List.countP_congr fun l _ => by simp

theorem filter_eq_self_of_occurrences (h : occurrences id layers = 0) :
    layers.filter (·.id ≠ id) = layers := by
  rw [List.filter_eq_self]
  intro l hl
  have hnone := List.countP_eq_zero.mp h l hl
  simpa using hnone

/-- A single layer is left out exactly if a single one has the id. -/
theorem withoutOne_filter_iff :
    WithoutOne layers (layers.filter (·.id ≠ id)) ↔ occurrences id layers = 1 := by
  have hlength := length_filter_add_occurrences id layers
  constructor
  · rintro ⟨front, l, back, hlayers, hout⟩
    rw [hout, hlayers] at hlength
    rw [List.length_append, List.length_append, List.length_cons, ← hlayers] at hlength
    omega
  · intro hone
    obtain ⟨l, hl⟩ : ∃ l, findLayer? id layers = some l := by
      apply Option.ne_none_iff_exists'.mp
      intro hnone
      rw [occurrences_eq_zero.mpr hnone] at hone
      cases hone
    obtain ⟨front, back, rfl, hid, -⟩ := exists_split_of_findLayer? hl
    rw [occurrences_append_cons hid] at hone
    refine ⟨front, l, back, rfl, ?_⟩
    have hfront : front.filter (·.id ≠ id) = front := filter_eq_self_of_occurrences (by omega)
    have hback : back.filter (·.id ≠ id) = back := filter_eq_self_of_occurrences (by omega)
    rw [List.filter_append, hfront, List.filter_cons_of_neg (by simpa using hid), hback]

/-! ## The operations -/

variable {e : Editor} {s : State}

/-- What is edited depends on the tree and the context alone. -/
theorem current_congr {e e' : Editor} (h : e.core = e'.core) : e.current = e'.current := by
  have hroot : e.root = e'.root := congrArg Core.root h
  have hpath : e.path = e'.path := congrArg (·.context.path) h
  unfold current contextLost
  rw [hroot, hpath]

theorem anchored_of_current (hs : e.current = .ok s) : e.core.Anchored := by
  show (e.root.stateAt? e.path).isSome
  rw [stateAt?_of_current hs]
  rfl

/-- The context gets other layers and keeps its settings. -/
theorem updateLayers_total (f : List Layer → List Layer) (s : State) :
    Triple (·.current = .ok s) (updateLayers f)
      (fun _ e => e.current = .ok { s with layers := some (f s.layerList) }) fun _ => False := by
  refine Triple.bind_view fun e he => Triple.mapRoot ?_ ?_
  · rintro e' root rfl hroot
    obtain ⟨-, t, ls, ht, hls, hnew⟩ := State.updateLayersAt_ok hroot
    rw [stateAt?_of_current he] at ht
    cases ht
    cases hls
    show current { e' with root } = _
    unfold current
    rw [show State.stateAt? root (path { e' with root }) = some _ from hnew]
  · rintro e' x rfl hroot
    obtain ⟨root, hok⟩ := State.exists_updateLayersAt (f := fun ls => .ok (f ls))
      (stateAt?_of_current he) rfl
    exact nomatch hok.symm.trans hroot

theorem changed_keeps_current (s : State) :
    Triple (·.current = .ok s) changed (fun _ e => e.current = .ok s) fun _ => False := by
  refine Triple.of_forall fun e he => ?_
  refine (changed_total (c := e.core) (anchored_of_current he)).conseq
    (fun _ h => congrArg core h) (fun _ e' hcore => ?_) fun _ => id
  rw [current_congr hcore]
  exact he

/-- A change of the layers that is recorded, whatever else it does, comes to its end. -/
theorem recorded_updateLayers_total (record : History → State → History × List History.Effect)
    (f : List Layer → List Layer) {finish : Edit Unit}
    (hfinish : ∀ t, Triple (·.current = .ok t) finish (fun _ e => e.current = .ok t)
      fun _ => False) (s : State) :
    Triple (·.current = .ok s)
      (do
        Edit.recordBy record
        updateLayers f
        finish)
      (fun _ e => e.current = .ok { s with layers := some (f s.layerList) }) fun _ => False :=
  -- An entry of the history is not part of what is edited.
  Triple.bind (Triple.recordBy fun _ he => he) fun _ =>
    Triple.bind (updateLayers_total f s) fun _ => hfinish _

/-- A new order is refused before anything happens, or carried out to the end. -/
theorem reorder_run (e : Editor) (ids : List String) :
    (∃ f, (reorder ids).run e = ⟨.error f, e, []⟩) ∧
        (∀ s, e.current = .ok s → ¬ ids.Perm (distinctIds s.layerList)) ∨
      ∃ s, e.current = .ok s ∧ ids.Perm (distinctIds s.layerList) ∧
        ((reorder ids).run e).result = .ok () ∧
        ((reorder ids).run e).editor.current =
          .ok { s with layers := some (ids.filterMap (lastWithId? s.layerList)) } := by
  cases hs : e.current with
  | error f =>
      refine .inl ⟨⟨f, ?_⟩, fun s h => nomatch h⟩
      refine run_view_bind_error ?_
      rw [hs]
      rfl
  | ok s =>
      by_cases hperm : ids.Perm (distinctIds s.layerList)
      · have hview : (do reordered (← e.current).layerList ids) =
            .ok (ids.filterMap (lastWithId? s.layerList)) := by
          rw [hs]
          exact reordered_eq hperm
        have hrun : (reorder ids).run e = _ := run_view_bind_ok hview
        obtain ⟨u, hresult, hcurrent⟩ := (recorded_updateLayers_total History.record
          (fun _ => ids.filterMap (lastWithId? s.layerList)) changed_keeps_current s).run_total hs
        refine .inr ⟨s, rfl, hperm, ?_, ?_⟩
        · rw [hrun]
          exact hresult
        · rw [hrun]
          exact hcurrent
      · refine .inl ⟨⟨.value .orderMismatch, ?_⟩, ?_⟩
        · refine run_view_bind_error ?_
          rw [hs]
          exact reordered_refused hperm
        · intro t ht
          cases ht
          exact hperm

/-- A layer that is missing is not removed, and no context is left half way. -/
theorem removeLayer_run (e : Editor) (id : String) :
    (∃ r, (removeLayer id).run e = ⟨r, e, []⟩) ∧
        (∀ s, e.current = .ok s → occurrences id s.layerList = 0) ∨
      ∃ s, e.current = .ok s ∧ 0 < occurrences id s.layerList ∧
        ((removeLayer id).run e).result = .ok () ∧
        ((removeLayer id).run e).editor.current =
          .ok { s with layers := some (s.layerList.filter (·.id ≠ id)) } := by
  cases hs : e.current with
  | error f =>
      refine .inl ⟨⟨.error f, ?_⟩, fun s h => nomatch h⟩
      refine run_view_bind_error ?_
      rw [contextLayer?, hs]
      rfl
  | ok s =>
      have hview : e.contextLayer? id = .ok (s.child? id) := by
        rw [contextLayer?, hs]
        rfl
      have hrun : (removeLayer id).run e = _ := run_view_bind_ok hview
      rw [hrun]
      cases hl : s.child? id with
      | none =>
          refine .inl ⟨⟨.ok (), rfl⟩, ?_⟩
          intro t ht
          cases ht
          exact occurrences_eq_zero.mpr hl
      | some l =>
          have hfinish : ∀ t, Triple (·.current = .ok t)
              (do
                Edit.change fun e =>
                  if e.selected = some id then { e with selected := none } else e
                changed)
              (fun _ e => e.current = .ok t) fun _ => False := by
            intro t
            refine Triple.bind (Triple.change fun e' he' => ?_) fun _ => changed_keeps_current t
            -- The selection is not part of what is edited.
            split
            · exact he'
            · exact he'
          obtain ⟨u, hresult, hcurrent⟩ := (recorded_updateLayers_total History.checkpoint
            (fun ls => ls.filter (·.id ≠ id)) hfinish s).run_total hs
          refine .inr ⟨s, rfl, ?_, hresult, hcurrent⟩
          apply Nat.pos_of_ne_zero
          intro hzero
          rw [State.child?, occurrences_eq_zero.mp hzero] at hl
          cases hl

/-- **What becomes of the layers.**  From any editor, a new order either is refused and changes
nothing, for want of a context or of the ids, each once; or the context has layers that spell out
the order, each the last that had its id.  These are the layers that were there, as many of each,
exactly if no two of them shared an id.  A removal either changes nothing, for want of a context or
of the layer; or the context has all layers without the id in their order.  That is one layer less
exactly if the id occurred once. -/
theorem conserves_layers (e : Editor) :
    (∀ ids,
      (∃ f, (reorder ids).run e = ⟨.error f, e, []⟩) ∧
          (∀ s, e.current = .ok s → ¬ ids.Perm (distinctIds s.layerList)) ∨
        ∃ s ls, e.current = .ok s ∧ ids.Perm (distinctIds s.layerList) ∧
          ((reorder ids).run e).result = .ok () ∧
          ((reorder ids).run e).editor.current = .ok { s with layers := some ls } ∧
          ls.map Layer.id = ids ∧ (∀ l ∈ ls, lastWithId? s.layerList l.id = some l) ∧
          (ls.Perm s.layerList ↔ (s.layerList.map Layer.id).Nodup)) ∧
    ∀ id,
      (∃ r, (removeLayer id).run e = ⟨r, e, []⟩) ∧
          (∀ s, e.current = .ok s → occurrences id s.layerList = 0) ∨
        ∃ s ls, e.current = .ok s ∧ 0 < occurrences id s.layerList ∧
          ((removeLayer id).run e).result = .ok () ∧
          ((removeLayer id).run e).editor.current = .ok { s with layers := some ls } ∧
          ls = s.layerList.filter (·.id ≠ id) ∧
          (WithoutOne s.layerList ls ↔ occurrences id s.layerList = 1) := by
  constructor
  · intro ids
    rcases reorder_run e ids with hrefused | ⟨s, hs, hperm, hresult, hcurrent⟩
    · exact .inl hrefused
    · refine .inr ⟨s, _, hs, hperm, hresult, hcurrent, map_id_reordered hperm, ?_,
        reordered_perm_iff hperm⟩
      intro l hl
      obtain ⟨id, -, hlast⟩ := List.mem_filterMap.mp hl
      rw [id_of_lastWithId? hlast]
      exact hlast
  · intro id
    rcases removeLayer_run e id with hmissing | ⟨s, hs, hpos, hresult, hcurrent⟩
    · exact .inl hmissing
    · exact .inr ⟨s, _, hs, hpos, hresult, hcurrent, rfl, withoutOne_filter_iff⟩

end Retouch.Editor
