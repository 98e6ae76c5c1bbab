/-
  The selected layer.

  An editor offers the layers that are directly on what is being edited, and a selected layer should
  be one of them.  Each operation either leaves what is offered, repairs the selection, or selects
  what it has looked up; so from an editor whose selection is among what is offered up to a few ids,
  it leads to such an editor (`fresh_apply`).  The ids that a step may lose are a parameter of the
  invariant, because operations lose an id for a moment and then repair the selection.

  Three things are not repaired.  New layers for what is being edited, through an update or a
  restored state, leave the selection as it is (`selected_apply_of_replacing`); and a step in the
  history takes a selected layer with the empty id for none.  A selection that is stale was lost by
  one of these and stays stale until it is cleared (`selection_lost_by_replaced_layers`).
-/
import Retouch.Proofs.Editor.Conserved
import Retouch.Proofs.Editor.Context
import Retouch.Proofs.State.LayerIds

namespace Retouch

/-! ## Along a path -/

namespace State

/-- One step before the end of a path there is the layer that the next step leads to. -/
theorem Resolves.exists_child {root : State} {p rest : List String} {id : String}
    (h : root.Resolves (p ++ id :: rest)) :
    ∃ s l, root.stateAt? p = some s ∧ s.child? id = some l := by
  obtain ⟨t, ht⟩ := h.exists_state
  rw [stateAt?_append] at ht
  obtain ⟨s, hs, ht⟩ := Option.bind_eq_some_iff.mp ht
  rw [stateAt?] at ht
  obtain ⟨l, hl, -⟩ := Option.bind_eq_some_iff.mp ht
  exact ⟨s, l, hs, hl⟩

theorem mem_ids_of_child? {s : State} {id : String} {l : Layer} (h : s.child? id = some l) :
    id ∈ s.layerList.map Layer.id := by
  obtain ⟨front, back, hlayers, rfl, -⟩ := exists_split_of_findLayer? h
  rw [hlayers]
  exact List.mem_map_of_mem (List.mem_append_right front List.mem_cons_self)

/-- After a layer is replaced by one with the same id, the path leads to that one. -/
theorem layerAt?_of_replaceLayerAt {root root' : State} {path : List String} {l : Layer}
    {f : Layer → Layer} (hl : root.layerAt? path = some l) (hid : (f l).id = l.id)
    (h : root.replaceLayerAt path f = .ok root') : root'.layerAt? path = some (f l) := by
  obtain ⟨b, hswaps⟩ := exists_swaps hl hid
  obtain rfl : b = root' := Except.ok.inj ((hswaps.replaceLayerAt_eq rfl).symm.trans h)
  exact hswaps.symm.layerAt?_eq

end State

/-- Replacing a layer by one with the same id leaves the ids. -/
theorem map_id_replaceFirst {id : String} {missing : Failure} {f : Layer → Layer}
    {ls out : List Layer} (hf : ∀ l, l.id = id → (f l).id = id)
    (h : replaceFirst id missing (fun l => .ok (f l)) ls = .ok out) :
    out.map Layer.id = ls.map Layer.id := by
  induction ls generalizing out with
  | nil => cases h
  | cons l ls ih =>
      rw [replaceFirst] at h
      split at h
      · rename_i hid
        cases h
        rw [List.map_cons, List.map_cons, hf l hid, hid]
      · obtain ⟨rest, hrest, hout⟩ := of_bind_eq_ok h
        cases hout
        rw [List.map_cons, List.map_cons, ih hrest]

namespace Editor

open Edit Editor.Core

/-! ## What is offered -/

/-- Whether a layer with an id is directly on what is being edited. -/
def Offers (e : Editor) (id : String) : Prop :=
  ∃ s, e.current = .ok s ∧ id ∈ s.layerList.map Layer.id

/-- Whether the selected layer is offered, unless its id is one of those lost. -/
def FreshBut (lost : String → Prop) (e : Editor) : Prop :=
  ∀ id, e.selected = some id → e.Offers id ∨ lost id

/-- Whether layers have all the ids of others, up to those lost. -/
def Covers (lost : String → Prop) (new old : List Layer) : Prop :=
  ∀ id ∈ old.map Layer.id, id ∈ new.map Layer.id ∨ lost id

variable {lost : String → Prop} {e : Editor}

theorem Covers.of_ids_eq {new old : List Layer} (h : new.map Layer.id = old.map Layer.id) :
    Covers lost new old :=
  fun _ hid => .inl (h ▸ hid)

theorem current_eq_ok_iff {s : State} : e.current = .ok s ↔ e.root.stateAt? e.path = some s := by
  refine ⟨stateAt?_of_current, fun hs => ?_⟩
  unfold current
  rw [hs]

theorem offers_of_contextLayer? {id : String} {l : Layer} (h : e.contextLayer? id = .ok (some l)) :
    e.Offers id := by
  obtain ⟨s, hs, hl⟩ := of_bind_eq_ok h
  exact ⟨s, hs, State.mem_ids_of_child? (Except.ok.inj hl)⟩

theorem freshBut_of_none (h : e.selected = none) : e.FreshBut lost := by
  intro id hid
  rw [h] at hid
  cases hid

theorem FreshBut.mono {lost' : String → Prop} (he : e.FreshBut lost)
    (h : ∀ id, lost id → lost' id) : e.FreshBut lost' :=
  fun id hid => (he id hid).imp_right (h id)

/-- Another tree with the ids that were offered keeps the selection fresh. -/
theorem FreshBut.of_root {root : State} (he : e.FreshBut lost)
    (h : ∀ s, e.current = .ok s →
      ∃ t, root.stateAt? e.path = some t ∧ Covers lost t.layerList s.layerList) :
    FreshBut lost { e with root } := by
  intro id hid
  rcases he id hid with ⟨s, hs, hmem⟩ | hlost
  · obtain ⟨t, ht, hcovers⟩ := h s hs
    exact (hcovers id hmem).imp_left fun hnew => ⟨t, current_eq_ok_iff.mpr ht, hnew⟩
  · exact .inr hlost

/-! ## Changes of the tree -/

theorem freshBut_of_updateLayersAt {root : State} {f : List Layer → Except Failure (List Layer)}
    (he : e.FreshBut lost) (hroot : e.root.updateLayersAt f e.path = .ok root)
    (hf : ∀ s ls, e.current = .ok s → f s.layerList = .ok ls → Covers lost ls s.layerList) :
    FreshBut lost { e with root } := by
  refine he.of_root fun s hs => ?_
  obtain ⟨-, t, ls, ht, hls, hnew⟩ := State.updateLayersAt_ok hroot
  obtain rfl : t = s := Option.some.inj (ht.symm.trans (current_eq_ok_iff.mp hs))
  exact ⟨_, hnew, hf t ls hs hls⟩

/-- Other layers for the context, which may lose more ids. -/
theorem fresh_updateLayers {lost' : String → Prop} (hlost : ∀ id, lost id → lost' id)
    (f : List Layer → List Layer) :
    Triple
      (fun e => e.FreshBut lost ∧
        ∀ s, e.current = .ok s → Covers lost' (f s.layerList) s.layerList)
      (updateLayers f) (fun _ => FreshBut lost') (FreshBut lost) := by
  refine Triple.bind_view fun e he => Triple.mapRoot ?_ ?_
  · rintro e' root rfl hroot
    refine freshBut_of_updateLayersAt (he.1.mono hlost) hroot fun s ls hs hls => ?_
    exact Except.ok.inj hls ▸ he.2 s hs
  · rintro e' x rfl -
    exact he.1

/-- A layer of the context in place of one with the same id. -/
theorem keeps_replaceLayer {id : String} {f : Layer → Layer}
    (hf : ∀ l, l.id = id → (f l).id = id) : Keeps (FreshBut lost) (replaceLayer id f) := by
  refine Triple.bind_view fun e he => Triple.mapRoot ?_ ?_
  · rintro e' root rfl hroot
    rw [State.replaceLayerAt, List.getLast?_concat, List.dropLast_concat] at hroot
    exact freshBut_of_updateLayersAt he hroot fun s ls _ hls =>
      .of_ids_eq (map_id_replaceFirst hf hls)
  · rintro e' x rfl -
    exact he

/-- What is being edited in place of itself, with its id. -/
theorem freshBut_of_replaceLayerAt {root : State} {f : Layer → Layer} (he : e.FreshBut lost)
    (hpath : e.path ≠ []) (hroot : e.root.replaceLayerAt e.path f = .ok root)
    (hf : ∀ l, e.root.layerAt? e.path = some l →
      (f l).id = l.id ∧ Covers lost (f l).state.layerList l.state.layerList) :
    FreshBut lost { e with root } := by
  refine he.of_root fun s hs => ?_
  have hs := current_eq_ok_iff.mp hs
  rw [State.stateAt?_eq_map_layerAt? _ hpath] at hs
  obtain ⟨l, hl, rfl⟩ := Option.map_eq_some_iff.mp hs
  obtain ⟨hid, hcovers⟩ := hf l hl
  refine ⟨(f l).state, ?_, hcovers⟩
  rw [State.stateAt?_eq_map_layerAt? _ hpath, State.layerAt?_of_replaceLayerAt hl hid hroot]
  rfl

/-- A new state for what is being edited. -/
theorem fresh_writeCurrent (t : State) :
    Triple (fun e => e.FreshBut lost ∧ ∀ s, e.current = .ok s → Covers lost t.layerList s.layerList)
      (writeCurrent t) (fun _ => FreshBut lost) (FreshBut lost) := by
  refine Triple.bind_view fun e he => Triple.mapRoot ?_ ?_
  · rintro e' root rfl hroot
    split at hroot
    · rename_i hpath
      cases hroot
      refine he.1.of_root fun s hs => ⟨e'.identified t, ?_, he.2 s hs⟩
      rw [List.isEmpty_iff.mp hpath]
      rfl
    · rename_i hpath
      have hpath : e'.path ≠ [] := by simpa using hpath
      refine freshBut_of_replaceLayerAt he.1 hpath hroot fun l hl => ⟨rfl, ?_⟩
      refine he.2 l.state (current_eq_ok_iff.mpr ?_)
      rw [State.stateAt?_eq_map_layerAt? _ hpath, hl]
      rfl
  · rintro e' x rfl -
    exact he.1

/-! ## Settings -/

/-- Whether updates name the layers of what they are for. -/
def Updates.NameLayers (u : Updates) : Prop :=
  ∃ es, u.value.entries? = .ok es ∧ es.Names .layers

theorem Updates.yields_changes {u : Updates} (h : ¬ u.NameLayers) :
    u.changes.Yields fun cs => ∀ c ∈ cs, c.1 ≠ .layers := by
  unfold changes
  split
  · have hnames : ∀ es, u.value.entries? = .ok es → ¬ es.Names .layers := fun es hes hn =>
      h ⟨es, hes, hn⟩
    refine (State.given_of_readGiven (by decide) (by decide) hnames).bind fun given hgiven =>
      .pure ?_
    intro c hc
    obtain ⟨f, hf, rfl⟩ := List.mem_map.mp hc
    exact fun hlayers => hgiven (hlayers ▸ hf)
  · refine (Check.yields_lift u.value.entries?).bind fun es hes => .pure fun c hc hlayers => ?_
    exact h ⟨es, hes, hlayers ▸ Changes.names_of_mem_ofEntries hc⟩

/-- Merging changes that name no layers leaves what is offered. -/
theorem keeps_merge {cs : Changes} (hcs : ∀ c ∈ cs, c.1 ≠ .layers) :
    Keeps (FreshBut lost)
      (do
        let s ← Edit.view current
        let merged ← Edit.check (s.merged cs)
        writeCurrent merged
        changed) := by
  refine Triple.bind_seen (fun _ => id) fun s => ?_
  refine Triple.bind_checked (fun _ _ he => he) (fun _ he => he.1)
    (fun _ _ => (State.yields_ids_merged hcs).of_run) fun merged hids => ?_
  refine Triple.bind ((fresh_writeCurrent merged).pre_mono ?_) fun _ => keeps_changed
  rintro e ⟨he, hs⟩
  refine ⟨he, fun s' hs' => ?_⟩
  obtain rfl : s = s' := Except.ok.inj (hs.symm.trans hs')
  exact .of_ids_eq hids

theorem keeps_recordBy (f : History → State → History × List History.Effect) :
    Keeps (FreshBut lost) (Edit.recordBy f) :=
  Triple.recordBy fun _ he => he

/-- An update that names no layers leaves what is offered. -/
theorem keeps_update {u : Updates} (hu : ¬ u.NameLayers) (recorded keepRatio : Bool) :
    Keeps (FreshBut lost) (update u recorded keepRatio) := by
  unfold update
  refine Triple.bind_checked (fun _ _ he => he) (fun _ => id)
    (fun _ _ => (Updates.yields_changes hu).of_run) fun changes hchanges => ?_
  extract_lets kept noted
  have hnoted : ∀ x, Keeps (FreshBut lost) (noted x) := by
    intro x
    refine Triple.bind_found (R := fun cs => ∀ c ∈ cs, c.1 ≠ .layers) (fun _ => id) ?_
      fun completed hcompleted => ?_
    · intro e cs _ hcs c hc
      rcases mem_completed hcs hc with heq | heq | ⟨-, hmem⟩
      · simp [heq]
      · simp [heq]
      · exact hchanges c hmem
    cases recorded with
    | true => exact (keeps_recordBy _).bind fun _ => keeps_merge hcompleted
    | false => exact keeps_merge hcompleted
  split
  · exact Keeps.bind (Triple.change fun _ he => he) hnoted
  · exact hnoted ()

theorem keeps_resetParams : Keeps (FreshBut lost) resetParams := by
  refine (keeps_recordBy _).bind fun _ => ?_
  refine Triple.bind_seen (fun _ => id) fun s => ?_
  refine Triple.bind
    (R := fun _ e => e.FreshBut lost ∧
      ∀ s', e.current = .ok s' → Covers lost (State.layerList ⟨{}, s.layers⟩) s'.layerList)
    (Triple.change ?_) fun _ => (fresh_writeCurrent _).bind fun _ => keeps_changed
  rintro e ⟨he, hs⟩
  refine ⟨he, fun s' hs' => ?_⟩
  obtain rfl : s = s' := Except.ok.inj (hs.symm.trans hs')
  exact .of_ids_eq rfl

/-! ## Layers -/

theorem keeps_append (l : Layer) : Keeps (FreshBut lost) (updateLayers (· ++ [l])) := by
  refine (fresh_updateLayers (fun _ => id) _).pre_mono fun e he => ⟨he, fun s _ id hid => .inl ?_⟩
  rw [List.map_append]
  exact List.mem_append_left _ hid

theorem keeps_addLayer (document : Value) : Keeps (FreshBut lost) (addLayer document) := by
  refine (Keeps.check _ fun _ _ he => he).bind fun l => (keeps_recordBy _).bind fun _ => ?_
  exact (keeps_append l).bind fun _ => keeps_changed.bind fun _ => Keeps.pure l

theorem keeps_duplicateLayer (id : String) : Keeps (FreshBut lost) (duplicateLayer id) := by
  refine (Keeps.view _).bind fun found => ?_
  cases found with
  | none => exact Keeps.pure none
  | some l =>
      refine (Keeps.check _ fun _ _ he => he).bind fun fresh => (Keeps.view _).bind fun copy => ?_
      refine (keeps_recordBy _).bind fun _ => (keeps_append copy).bind fun _ => ?_
      exact keeps_changed.bind fun _ => Keeps.pure (some copy)

/-- A removal takes the id from what is offered, and then from what is selected. -/
theorem keeps_removeLayer (id : String) : Keeps (FreshBut lost) (removeLayer id) := by
  refine (Keeps.view _).bind fun found => ?_
  cases found with
  | none => exact Keeps.pure ()
  | some l =>
      refine (keeps_recordBy _).bind fun _ => ?_
      -- For a moment the removed id is one more of those that are lost.
      have hremoved : Triple (FreshBut lost) (updateLayers fun ls => ls.filter (·.id ≠ id))
          (fun _ => FreshBut fun other => lost other ∨ other = id) (FreshBut lost) := by
        refine (fresh_updateLayers (fun _ => Or.inl) _).pre_mono fun e he =>
          ⟨he, fun s _ other hother => ?_⟩
        by_cases heq : other = id
        · exact .inr (.inr heq)
        · obtain ⟨k, hk, rfl⟩ := List.mem_map.mp hother
          exact .inl (List.mem_map_of_mem (List.mem_filter.mpr ⟨hk, by simpa using heq⟩))
      refine hremoved.bind fun _ => Triple.bind (R := fun _ => FreshBut lost) (Triple.change ?_)
        fun _ => keeps_changed
      intro e he
      split
      · exact freshBut_of_none rfl
      · rename_i hne
        refine fun other hother => (he other hother).imp_right fun hlost => ?_
        exact hlost.resolve_right fun heq => hne (heq ▸ hother)

/-- A layer with updates keeps its id if the updates hold each key once. -/
theorem updatedLayer_id {l : Layer} {u : LayerUpdates} (hu : u.value.Distinct)
    (preset : Option (List Field × State)) :
    Triple (FreshBut lost) (updatedLayer l u preset) (fun k e => e.FreshBut lost ∧ k.id = l.id)
      (FreshBut lost) := by
  refine Triple.bind_found (fun _ => id) (fun _ _ _ => id) fun es hes => ?_
  have hid : "id" ∉ ((es.erase "id").erase "transforms").keys := by
    have hkeys : es.keys.Nodup := hu.nodup_keys_of_entries? hes
    rw [Entries.keys_erase, Entries.keys_erase]
    exact fun hmem => (hkeys.mem_erase_iff.mp (List.mem_of_mem_erase hmem)).1 rfl
  extract_lets es' props rest
  have hrest : ∀ updated : Layer, updated.id = l.id →
      Triple (FreshBut lost) (rest updated) (fun k e => e.FreshBut lost ∧ k.id = l.id)
        (FreshBut lost) := by
    intro updated hupdated
    simp only [rest]
    split
    · exact Triple.pure _ fun _ he => ⟨he, hupdated⟩
    · exact Triple.pure _ fun _ he => ⟨he, hupdated⟩
    · refine Triple.bind (R := fun _ => FreshBut lost)
        ((idle_newTransforms l _ preset u.replace).keeps fun _ _ he => he) fun s => ?_
      exact Triple.pure _ fun _ he => ⟨he, hupdated⟩
  split
  · exact Triple.bind (R := fun k e => e.FreshBut lost ∧ k.id = l.id)
      (Triple.pure l fun _ he => ⟨he, rfl⟩) fun k => Triple.of_fact (hrest k)
  · exact Triple.bind_checked (fun _ _ he => he) (fun _ => id)
      (fun _ _ => (l.yields_id_merged hid).of_run) hrest

theorem keeps_updateLayer (id : String) {u : LayerUpdates} (hu : u.value.Distinct)
    (recorded : Bool) : Keeps (FreshBut lost) (updateLayer id u recorded) := by
  refine (Keeps.check _ fun _ _ he => he).bind fun preset => ?_
  refine Triple.bind_found (R := fun found => ∀ l ∈ found, l.id = id) (fun _ he => he) ?_
    fun found hfound => ?_
  · intro e found _ hview l hl
    obtain ⟨s, -, hchild⟩ := of_bind_eq_ok hview
    obtain ⟨-, -, -, hid, -⟩ := exists_split_of_findLayer? ((Except.ok.inj hchild).trans hl)
    exact hid
  cases found with
  | none => exact Keeps.pure ()
  | some l =>
      refine (updatedLayer_id hu preset).bind fun k => Triple.of_fact fun hk => ?_
      have hreplace : Keeps (FreshBut lost)
          (do
            replaceLayer id fun _ => k
            changed) :=
        (keeps_replaceLayer fun _ _ => hk.trans (hfound l rfl)).bind fun _ => keeps_changed
      cases recorded with
      | true => exact (keeps_recordBy _).bind fun _ => hreplace
      | false => exact hreplace

theorem keeps_reorder (ids : List String) : Keeps (FreshBut lost) (reorder ids) := by
  refine Triple.bind_seen (fun _ => id) fun layers => ?_
  refine Triple.bind
    (R := fun _ e => e.FreshBut lost ∧
      ∀ s, e.current = .ok s → Covers lost layers s.layerList) (Triple.recordBy ?_) fun _ => ?_
  · rintro e ⟨he, hview⟩
    refine ⟨he, fun s hs id hid => .inl ?_⟩
    obtain ⟨t, ht, hlayers⟩ := of_bind_eq_ok hview
    obtain rfl : t = s := Except.ok.inj (ht.symm.trans hs)
    by_cases hperm : ids.Perm (distinctIds t.layerList)
    · rw [reordered_eq hperm] at hlayers
      rw [← Except.ok.inj hlayers, map_id_reordered hperm]
      exact hperm.mem_iff.mpr (mem_distinctIds.mpr hid)
    · rw [reordered_refused hperm] at hlayers
      cases hlayers
  exact (fresh_updateLayers (fun _ => id) fun _ => layers).bind fun _ => keeps_changed

/-- What is selected was looked up, or it is nothing. -/
theorem keeps_select_fresh (id : Option String) : Keeps (FreshBut lost) (select id) := by
  unfold select
  extract_lets rest
  cases id with
  | none => exact Triple.change fun _ _ => freshBut_of_none rfl
  | some id =>
      refine Triple.bind_seen (fun _ he => he) fun found => ?_
      cases found with
      | none =>
          exact Triple.bind (R := fun _ _ => False) (Triple.fail _ fun _ he => he.1) fun _ =>
            Triple.change fun _ => False.elim
      | some l =>
          refine Triple.change fun e he other hother => .inl ?_
          exact Option.some.inj hother ▸ offers_of_contextLayer? he.2

/-! ## Images and templates -/

/-- Other settings of a layer for another image leave the layers on it. -/
theorem layers_swappedState (l : Layer) (size : Size) :
    (swappedState l size).layers = l.state.layers := by
  unfold swappedState
  extract_lets s old unset
  split
  · rfl
  · rfl

theorem layerAt?_of_currentLayer {l : Layer} (h : e.currentLayer = .ok l) :
    e.root.layerAt? e.path = some l := by
  unfold currentLayer at h
  split at h
  · rename_i k hk
    cases h
    exact hk
  · cases h

theorem keeps_replaceImage (imagePath : String) (dimensions : Value) (target : Option String) :
    Keeps (FreshBut lost) (replaceImage imagePath dimensions target) := by
  refine (Keeps.check _ fun _ _ he => he).bind fun size => ?_
  extract_lets finish rest
  have hfinish : ∀ u, Keeps (FreshBut lost) (finish u) := fun _ => keeps_changed
  have hrest : ∀ u, Keeps (FreshBut lost) (rest u) := by
    refine fun _ => (keeps_recordBy _).bind fun _ => Triple.bind_view fun e he => ?_
    cases target with
    | some target =>
        refine Triple.pre_mono (P := FreshBut lost) ?_ fun e' he' => he' ▸ he
        exact Keeps.bind (keeps_replaceLayer fun _ => id) hfinish
    | none =>
        by_cases hpath : e.path.isEmpty
        · rw [if_pos hpath]
          refine Triple.bind (R := fun _ e => e.FreshBut lost ∧ e.path = []) (Triple.change ?_)
            fun _ => Triple.bind (R := fun _ => FreshBut lost) (Triple.change ?_) hfinish
          · rintro e' rfl
            exact ⟨he, List.isEmpty_iff.mp hpath⟩
          · rintro e' ⟨he', hnil⟩
            refine he'.of_root fun s hs => ⟨e'.identified e'.root.withoutCrop, ?_, .of_ids_eq ?_⟩
            · rw [hnil]
              rfl
            · rw [current_of_nil rfl hnil hs]
              rfl
        · rw [if_neg hpath]
          refine Triple.bind_seen (fun e' he' => he' ▸ he) fun l =>
            Triple.bind (R := fun _ => FreshBut lost) (Triple.mapRoot ?_ ?_) hfinish
          · rintro e' root ⟨rfl, hl⟩ hroot
            refine freshBut_of_replaceLayerAt he (by simpa using hpath) hroot fun k hk =>
              ⟨rfl, .of_ids_eq ?_⟩
            obtain rfl : l = k :=
              Option.some.inj ((layerAt?_of_currentLayer hl).symm.trans hk)
            show (swappedState l size).layerList.map Layer.id = _
            rw [State.layerList, layers_swappedState]
            rfl
          · rintro e' x ⟨rfl, -⟩ -
            exact he
  cases target with
  | none => exact hrest ()
  | some target =>
      refine (Keeps.view _).bind fun found => ?_
      cases found with
      | none => exact (Keeps.fail _).bind hrest
      | some l => exact hrest ()

theorem keeps_importTemplate (text : String) : Keeps (FreshBut lost) (importTemplate text) := by
  have hread : Keeps (FreshBut lost) (readTemplate text) := by
    intro t ht
    unfold readTemplate
    dsimp only
    cases Retouch.importTemplate text t.editor.size t.editor.settings t.editor.issued with
    | mk r n =>
        cases r with
        | ok r => exact ht
        | error f => exact ht
  refine hread.bind fun result => ?_
  cases result.outcome with
  | none => exact Keeps.pure result
  | some applied =>
      refine (keeps_recordBy _).bind fun _ => ?_
      refine Triple.bind (R := fun _ => FreshBut lost)
        (Triple.change fun _ _ => freshBut_of_none rfl) fun _ => ?_
      exact keeps_changed.bind fun _ => Keeps.pure result

/-! ## Moving through the tree and its history -/

theorem selected_withTree (e : Editor) (tree : State) :
    (withTree e tree).selected = e.selected := by
  unfold withTree
  extract_lets base named path
  have hselected : base.selected = e.selected := by
    simp only [base]
    split
    · split
      · rfl
      · rfl
    · rfl
  split
  · exact hselected
  · exact hselected

/-- A step in the history looks for the selected layer, if its id is not empty. -/
theorem fresh_restoreTree (tree : State) :
    Triple (fun e => e.selected = some "" → lost "") (restoreTree tree) (fun _ => FreshBut lost)
      (FreshBut lost) := by
  refine Triple.bind
    (R := fun _ e => e.core.Anchored ∧ (e.selected = some "" → lost ""))
    (Triple.change fun e he => ⟨anchored_withTree e tree, selected_withTree e tree ▸ he⟩)
    fun _ => ?_
  refine Triple.bind
    (R := fun sought e => e.core.Anchored ∧ ∀ id, e.selected = some id → sought = some id ∨ lost id)
    (Triple.view ?_ ?_) fun sought => ?_
  · rintro e sought ⟨hanchored, hempty⟩ hsought
    refine ⟨hanchored, fun id hid => ?_⟩
    rw [← Except.ok.inj hsought, hid]
    -- The empty id is not sought at all, and so not found to be gone.
    by_cases hne : id = ""
    · exact .inr (hne ▸ hempty (hne ▸ hid))
    · exact .inl (by simpa using hne)
  · exact fun e x _ h => nomatch h
  extract_lets finish
  cases sought with
  | none =>
      refine Triple.pre_mono (P := FreshBut lost) keeps_changed fun e he id hid => .inr ?_
      exact (he.2 id hid).resolve_left nofun
  | some id =>
      refine Triple.bind (R := fun found e => found.isSome → e.FreshBut lost) (Triple.view ?_ ?_)
        fun found => ?_
      · refine fun e found he hview hsome other hother => ?_
        obtain ⟨l, rfl⟩ := Option.isSome_iff_exists.mp hsome
        refine (he.2 other hother).imp_left fun heq => ?_
        exact Option.some.inj heq ▸ offers_of_contextLayer? hview
      · rintro e x ⟨hanchored, -⟩ hview
        obtain ⟨s, hs⟩ := current_of_anchored hanchored
        rw [contextLayer?, hs] at hview
        cases hview
      cases found with
      | some l => exact Triple.pre_mono (P := FreshBut lost) keeps_changed fun e he => he rfl
      | none =>
          exact Triple.bind (R := fun _ => FreshBut lost)
            (Triple.change fun _ _ => freshBut_of_none rfl) fun _ => keeps_changed

theorem fresh_travel (f : History → State → Option State × History × List History.Effect) :
    Triple (fun e => e.FreshBut lost ∧ (e.selected = some "" → lost "")) (travel f)
      (fun _ => FreshBut lost) (FreshBut lost) := by
  refine Triple.bind (R := fun _ e => e.FreshBut lost ∧ (e.selected = some "" → lost ""))
    (Triple.rewind fun _ he => he) fun found => ?_
  cases found with
  | none => exact Triple.pure false fun _ he => he.1
  | some tree =>
      refine Triple.bind ((fresh_restoreTree tree).pre_mono fun _ he => he.2) fun _ => ?_
      exact Triple.pure true fun _ he => he

/-- Where the context leads up to, the layer that was left is offered. -/
theorem offers_of_selectionAfter {d : Context} {id : String} (he : e.core.Anchored)
    (h : selectionAfter e.path d.path = some id) : Offers { e with context := d } id := by
  unfold selectionAfter at h
  split at h
  · rename_i hup
    obtain ⟨rest, hrest⟩ := List.isPrefixOf_iff_prefix.mp hup.2.1
    rw [← hrest, List.getElem?_append_right (Nat.le_refl _), Nat.sub_self] at h
    cases rest with
    | nil => cases h
    | cons next rest =>
        obtain rfl : next = id := Option.some.inj h
        have hpath : e.root.Resolves (d.path ++ next :: rest) := hrest ▸ he
        obtain ⟨s, l, hs, hl⟩ := hpath.exists_child
        exact ⟨s, current_eq_ok_iff.mpr hs, State.mem_ids_of_child? hl⟩
  · cases h

theorem fresh_switchContext (target : Option String) :
    Triple (fun e => e.FreshBut lost ∧ e.core.Anchored) (switchContext target)
      (fun _ => FreshBut lost) (FreshBut lost) := by
  refine Triple.bind_seen (fun _ he => he.1) fun found => ?_
  cases found with
  | none => exact Triple.pure () fun _ he => he.1.1
  | some d =>
      refine Triple.bind (R := fun _ e => e.FreshBut lost ∧ e.core.Anchored)
        (Triple.recordBy fun _ he => he.1) fun _ => ?_
      refine Triple.bind (R := fun _ => FreshBut lost) (Triple.change ?_) fun _ => keeps_changed
      exact fun e he id hid => .inl (offers_of_selectionAfter he.2 hid)

/-! ## Every move -/

/-- Whether a move gives what is being edited other layers without a look at the selection. -/
def Move.ReplacesLayers : Move → Prop
  | .command (.update u _ _) => u.NameLayers
  | .command (.restore _) => True
  | _ => False

/-- Whether the updates of a layer that a move is given hold each key once. -/
def Move.Proper : Move → Prop
  | .command (.updateLayer _ u _) => u.value.Distinct
  | _ => True

/-- Whether a move may lose a layer and leave its id selected. -/
def Move.MayLose (m : Move) (id : String) : Prop := m.ReplacesLayers ∨ m.travels = true ∧ id = ""

theorem fresh_answerDone {P : Editor → Prop} {edit : Edit Unit}
    (h : Triple P edit (fun _ => FreshBut lost) (FreshBut lost)) :
    Triple P (carryOut.answerDone edit) (fun _ => FreshBut lost) (FreshBut lost) :=
  h.bind fun _ => Triple.pure _ fun _ => id

/-- Every command that does not replace layers keeps the selection fresh. -/
theorem fresh_carryOut {cmd : Command} (hproper : Move.Proper (.command cmd))
    (hcmd : ¬ Move.ReplacesLayers (.command cmd)) :
    Triple
      (fun e => e.FreshBut lost ∧ e.core.Anchored ∧
        (Move.travels (.command cmd) = true → e.selected = some "" → lost ""))
      (carryOut cmd) (fun _ => FreshBut lost) (FreshBut lost) := by
  have of_keeps : ∀ {α : Type} {edit : Edit α} {R : Editor → Prop}, Keeps (FreshBut lost) edit →
      Triple (fun e => e.FreshBut lost ∧ R e) edit (fun _ => FreshBut lost) (FreshBut lost) :=
    fun h => Triple.pre_mono h fun _ he => he.1
  cases cmd with
  | startOver listening =>
      refine fresh_answerDone (of_keeps (Triple.bind (R := fun _ => FreshBut lost)
        (Triple.change fun _ _ => freshBut_of_none rfl) fun _ => ?_))
      exact (keeps_recordBy _).bind fun _ => Keeps.ask _
  | destroy =>
      refine fresh_answerDone (of_keeps ((keeps_recordBy _).bind fun _ => ?_))
      exact (Keeps.ask _).bind fun _ => Triple.change fun _ he => he
  | update u recorded keepRatio =>
      exact fresh_answerDone (of_keeps (keeps_update hcmd recorded keepRatio))
  | restore document => exact absurd trivial hcmd
  | resetParams => exact fresh_answerDone (of_keeps keeps_resetParams)
  | toggleAspect => exact Triple.map (of_keeps (keeps_toggleAspect_of fun _ _ _ he => he))
  | undo => exact Triple.map ((fresh_travel _).pre_mono fun _ he => ⟨he.1, he.2.2 rfl⟩)
  | redo => exact Triple.map ((fresh_travel _).pre_mono fun _ he => ⟨he.1, he.2.2 rfl⟩)
  | addLayer document => exact Triple.map (of_keeps (keeps_addLayer document))
  | removeLayer id => exact fresh_answerDone (of_keeps (keeps_removeLayer id))
  | duplicateLayer id => exact Triple.map (of_keeps (keeps_duplicateLayer id))
  | updateLayer id u recorded =>
      exact fresh_answerDone (of_keeps (keeps_updateLayer id hproper recorded))
  | reorder ids => exact fresh_answerDone (of_keeps (keeps_reorder ids))
  | select id => exact fresh_answerDone (of_keeps (keeps_select_fresh id))
  | switchContext target =>
      exact fresh_answerDone ((fresh_switchContext target).pre_mono fun _ he => ⟨he.1, he.2.1⟩)
  | replaceImage imagePath dimensions target =>
      exact fresh_answerDone (of_keeps (keeps_replaceImage imagePath dimensions target))
  | importTemplate text => exact Triple.map (of_keeps (keeps_importTemplate text))
  | notifyLoaded => exact fresh_answerDone (of_keeps (Keeps.ask _))

/-- A move that does not replace layers keeps the selection fresh, except that a step in the history
may lose the empty id. -/
theorem fresh_apply {m : Move} (hproper : m.Proper) (hm : ¬ m.ReplacesLayers)
    (hanchored : e.core.Anchored) (he : e.FreshBut lost)
    (hempty : m.travels = true → e.selected = some "" → lost "") :
    (e.apply m).FreshBut lost := by
  cases m with
  | command cmd =>
      exact (fresh_carryOut hproper hm).of_run ⟨he, hanchored, hempty⟩ (fun _ _ => id) fun _ => id
  | crop enabled => exact (keeps_setVisualCrop_of enabled fun _ _ h => h).of_run he
  | pauseOver => exact he

theorem keeps_selected_writeCurrent {x : Option String} (t : State) :
    Keeps (·.selected = x) (writeCurrent t) := by
  refine Triple.bind_view fun e he =>
    Triple.pre_mono (P := (·.selected = x)) ?_ fun e' he' => he' ▸ he
  exact Triple.mapRoot (fun _ _ h _ => h) fun _ _ h _ => h

/-- A move that replaces layers leaves the selection as it is. -/
theorem selected_apply_of_replacing {m : Move} (hm : m.ReplacesLayers) :
    (e.apply m).selected = e.selected := by
  match m, hm with
  | .command (.update u recorded keepRatio), _ =>
      rw [apply, carryOut, editor_run_answerDone]
      refine Keeps.of_run (I := (·.selected = e.selected)) ?_ rfl
      unfold update
      refine (Keeps.check _ fun _ _ he => he).bind fun changes => ?_
      extract_lets kept noted
      have hnoted : ∀ u, Keeps (·.selected = e.selected) (noted u) := by
        refine fun _ => (Keeps.view _).bind fun completed => ?_
        have hmerge : Keeps (·.selected = e.selected) _ := (Keeps.view current).bind fun s =>
          (Keeps.check (s.merged completed) fun _ _ he => he).bind fun merged =>
            (keeps_selected_writeCurrent merged).bind fun _ => keeps_changed
        cases recorded with
        | true => exact Keeps.bind (Triple.recordBy fun _ he => he) fun _ => hmerge
        | false => exact hmerge
      split
      · exact Keeps.bind (Triple.change fun _ he => he) hnoted
      · exact hnoted ()
  | .command (.restore document), _ =>
      rw [apply, carryOut, editor_run_answerDone]
      refine Keeps.of_run (I := (·.selected = e.selected)) ?_ rfl
      unfold restore
      refine (Keeps.check _ fun _ _ he => he).bind fun s => ?_
      extract_lets names rest
      have hrest : ∀ u, Keeps (·.selected = e.selected) (rest u) :=
        fun _ => Keeps.bind (Triple.change fun _ he => he) fun _ =>
          (keeps_selected_writeCurrent _).bind fun _ => keeps_changed
      clear_value names
      cases names with
      | none => exact hrest ()
      | some named =>
          refine Keeps.bind (Triple.change fun e' he => ?_) hrest
          split
          · exact he
          · exact he

/-- What is selected after a move is offered, or it was selected before and not offered, or the move
    may have lost it. -/
theorem offers_apply {m : Move} {id : String} (hproper : m.Proper) (hanchored : e.core.Anchored)
    (hid : (e.apply m).selected = some id) :
    (e.apply m).Offers id ∨ e.selected = some id ∧ (e.Offers id → m.MayLose id) := by
  by_cases hm : m.ReplacesLayers
  · exact .inr ⟨selected_apply_of_replacing hm ▸ hid, fun _ => .inl hm⟩
  · have hfresh : e.FreshBut fun id => e.selected = some id ∧ (e.Offers id → m.MayLose id) := by
      intro other hother
      by_cases hoffers : e.Offers other
      · exact .inl hoffers
      · exact .inr ⟨hother, fun h => absurd h hoffers⟩
    exact fresh_apply hproper hm hanchored hfresh
      (fun htravels hempty => ⟨hempty, fun _ => .inr ⟨htravels, rfl⟩⟩) id hid

/-! ## Every reachable editor -/

/-- **A selection goes stale only where layers are replaced under it.**  After any moves, failures
    included, in which the ids in the tree stay distinct, a selected layer is directly on what is
    being edited, unless one of the moves lost it: it was offered and selected before that move,
    which was an update that names layers, a restored state, or for the empty id a step in the
    history; and ever since it is selected and not offered.  Updates with layers and restored states
    never change what is selected. -/
theorem selection_lost_by_replaced_layers (settings : Settings) (imagePath : String) (size : Size)
    (bounds : Option Size) (moves : List Move) (hproper : ∀ m ∈ moves, m.Proper)
    (hids : ∀ front, front <+: moves →
      ((start settings imagePath size bounds).after front).root.DistinctIds) :
    let e := start settings imagePath size bounds
    (∀ id, (e.after moves).selected = some id →
      (e.after moves).Offers id ∨
        ∃ front m back, moves = front ++ m :: back ∧ m.MayLose id ∧
          (e.after front).selected = some id ∧ (e.after front).Offers id ∧
          ∀ rest, rest <+: back →
            (e.after (front ++ m :: rest)).selected = some id ∧
              ¬ (e.after (front ++ m :: rest)).Offers id) ∧
      ∀ m : Move, m.ReplacesLayers →
        ((e.after moves).apply m).selected = (e.after moves).selected := by
  intro e
  refine ⟨fun id => ?_, fun m hm => selected_apply_of_replacing hm⟩
  induction moves using List.reverseRecOn with
  | nil => exact fun hid => nomatch hid
  | append_singleton moves m ih =>
      intro hid
      by_cases hoffers : (e.after (moves ++ [m])).Offers id
      · exact .inl hoffers
      have hfronts : ∀ {front}, front <+: moves → front <+: moves ++ [m] := fun h =>
        h.trans (List.prefix_append moves [m])
      have hanchored : (e.after moves).core.Anchored :=
        anchored_after (anchored_start settings imagePath size bounds) fun n =>
          hids _ (hfronts (List.take_prefix n moves))
      have hstep := offers_apply (hproper m (by simp)) hanchored (after_snoc e moves m ▸ hid)
      rw [← after_snoc] at hstep
      obtain ⟨hbefore, hlose⟩ := hstep.resolve_left hoffers
      by_cases hthere : (e.after moves).Offers id
      · -- It is this move that lost it.
        refine .inr ⟨moves, m, [], rfl, hlose hthere, hbefore, hthere, fun rest hrest => ?_⟩
        obtain rfl := List.prefix_nil.mp hrest
        exact ⟨hid, hoffers⟩
      · have hih := ih (fun k hk => hproper k (List.mem_append_left _ hk))
          (fun front hfront => hids front (hfronts hfront)) hbefore
        obtain ⟨front, k, back, rfl, hk, hselected, hfront, hsince⟩ := hih.resolve_left hthere
        refine .inr ⟨front, k, back ++ [m], by simp, hk, hselected, hfront, fun rest hrest => ?_⟩
        rcases List.prefix_concat_iff.mp hrest with rfl | hrest
        · exact ⟨by simpa using hid, by simpa using hoffers⟩
        · exact hsince rest hrest

/-- A layer is added and selected, and then the list of layers is emptied. -/
def dropLayers : List Move :=
  [.command (.addLayer pixelLayer), .command (.select (some "dot")),
    .command (.update ⟨.object [("layers", .list [])], false⟩ false false)]

set_option maxRecDepth 2000 in
theorem selected_dropLayers (s : Settings) :
    ((start s "base.png" ⟨100, 100⟩ none).after dropLayers).selected = some "dot" := by
  cbv

set_option maxRecDepth 2000 in
theorem not_offers_dropLayers (s : Settings) :
    ¬ ((start s "base.png" ⟨100, 100⟩ none).after dropLayers).Offers "dot" := by
  rintro ⟨t, ht, hmem⟩
  have hcurrent : ((start s "base.png" ⟨100, 100⟩ none).after dropLayers).current =
      .ok ⟨{ imagePath := some "base.png", originalDimensions := some ⟨100, 100⟩ }, some []⟩ := by
    cbv
  cases hcurrent.symm.trans ht
  exact List.not_mem_nil hmem

set_option maxRecDepth 2000 in
theorem distinctIds_dropLayers (s : Settings) {front : List Move} (h : front <+: dropLayers) :
    ((start s "base.png" ⟨100, 100⟩ none).after front).root.DistinctIds := by
  rw [List.prefix_iff_eq_take.mp h]
  match front.length with
  | 0 => cbv
  | 1 =>
      cbv
      simp
  | 2 =>
      cbv
      simp
  | n + 3 =>
      rw [List.take_of_length_le (by simp [dropLayers])]
      cbv
      simp

theorem proper_dropLayers : ∀ m ∈ dropLayers, m.Proper := by
  intro m hm
  simp only [dropLayers, List.mem_cons, List.not_mem_nil, or_false] at hm
  rcases hm with rfl | rfl | rfl
  · trivial
  · trivial
  · trivial

/-- The layer is gone then and still selected, and a move of the three lost it. -/
theorem selection_lost_dropLayers :
    let e := start {} "base.png" ⟨100, 100⟩ none
    (e.after dropLayers).selected = some "dot" ∧ ¬ (e.after dropLayers).Offers "dot" ∧
      ∃ front m back, dropLayers = front ++ m :: back ∧ m.MayLose "dot" ∧
        (e.after front).selected = some "dot" ∧ (e.after front).Offers "dot" := by
  intro e
  have hselected : (e.after dropLayers).selected = some "dot" := selected_dropLayers {}
  have hgone : ¬ (e.after dropLayers).Offers "dot" := not_offers_dropLayers {}
  obtain ⟨hlost, -⟩ := selection_lost_by_replaced_layers {} "base.png" ⟨100, 100⟩ none dropLayers
    proper_dropLayers fun _ => distinctIds_dropLayers {}
  obtain ⟨front, m, back, hsplit, hm, hbefore, hoffered, -⟩ :=
    (hlost "dot" hselected).resolve_left hgone
  exact ⟨hselected, hgone, front, m, back, hsplit, hm, hbefore, hoffered⟩

end Editor

end Retouch
