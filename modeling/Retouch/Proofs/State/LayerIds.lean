/-
  The ids of layers that are read back.

  A layer has the id that its entries give.  So changes that name no layers leave the ids of the
  layers, in their order (`State.yields_ids_merged`), and updates that give a layer no id leave it
  the one that it has (`Layer.yields_id_merged`).  Placeholders for what is refused have the ids as
  well, so both hold of all that is read and not only of what is accepted.
-/
import Retouch.Proofs.State.Marks
import Retouch.Proofs.State.Override

namespace Retouch

open Check

/-! ## Layers that are written and read -/

theorem LayerProps.yields_id {es : Entries} {id : String} (h : es.lookup "id" = some (.text id)) :
    (LayerProps.read es).Yields (·.id = id) := by
  have hid : Check.within (.key "id") (Convert.text (.text id)) = pure id := Check.within_pure
  unfold LayerProps.read
  simp only [h, hid, pure_bind]
  iterate 8 refine Yields.bind_any fun _ => ?_
  exact .pure rfl

/-- A layer is read with the id at its key. -/
theorem Layer.yields_id {es : Entries} {id : String} (h : es.lookup "id" = some (.text id)) :
    (Layer.check (.object es)).Yields (·.id = id) := by
  rw [Layer.check]
  exact (LayerProps.yields_id h).bind fun props hprops =>
    Yields.bind_any fun _ => .pure hprops

theorem Layer.yields_id_write (l : Layer) : (Layer.check l.write).Yields (·.id = l.id) := by
  obtain ⟨p, _ | s⟩ := l
  · exact yields_id rfl
  · exact yields_id rfl

theorem yields_ids_checkItems (ls : List Layer) (n : Nat) :
    (checkItems n (writeLayers ls)).Yields fun out => out.map Layer.id = ls.map Layer.id := by
  induction ls generalizing n with
  | nil =>
      rw [writeLayers, checkItems]
      exact .pure rfl
  | cons l ls ih =>
      rw [writeLayers, checkItems]
      refine Yields.bind (l.yields_id_write.within _) fun k hk => ?_
      refine (ih (n + 1)).bind fun out hout => .pure ?_
      rw [List.map_cons, List.map_cons, hk, hout]

/-- Changes that name no layers leave the layers their ids. -/
theorem State.yields_ids_merged {s : State} {cs : Changes} (hcs : ∀ c ∈ cs, c.1 ≠ .layers) :
    (s.merged cs).Yields fun t => t.layerList.map Layer.id = s.layerList.map Layer.id := by
  -- The layers are written out with the state and read again from there.
  have hlayers : (checkLayersIn (cs.apply (s.entries Field.spelled))).Yields fun layers =>
      (layers.getD []).map Layer.id = s.layerList.map Layer.id := by
    rw [checkLayersIn_eq, lookup_layers_of_changes hcs]
    obtain ⟨p, _ | ls⟩ := s
    · exact .pure rfl
    · refine Yields.within ?_ _
      rw [checkLayers]
      exact (yields_ids_checkItems ls 0).bind fun out hout => .pure hout
  unfold merged
  rw [State.check]
  exact Yields.bind_any fun params => hlayers.bind fun layers hids => .pure hids

/-! ## Layers with updates -/

theorem Value.Distinct.nodup_keys_of_entries? {v : Value} {es : Entries} (hv : v.Distinct)
    (h : v.entries? = .ok es) : es.keys.Nodup := by
  cases v with
  | object fs =>
      cases h
      cases hv with
      | plain _ hobject => exact absurd rfl (hobject es)
      | object hkeys _ => exact hkeys
  | list vs =>
      obtain ⟨pairs, -, hpairs⟩ := of_bind_eq_ok h
      cases hpairs
      exact Entries.nodup_keys_ofPairs _
  | text s =>
      rw [Value.entries?] at h
      split at h
      · cases h
        exact List.nodup_nil
      · cases h
  | _ => cases h

theorem eq_of_layerSpelled?_eq_id {key : String} (h : layerSpelled? key = some "id") :
    key = "id" := by
  obtain ⟨⟨first, second⟩, hfound, rfl⟩ := Option.map_eq_some_iff.mp h
  have hkey := List.find?_some hfound
  have hmem := List.mem_of_find?_eq_some hfound
  simp [layerKeys] at hmem
  subst hmem
  simpa [eq_comm] using hkey

theorem Entries.id_notMem_layerSpelled {es : Entries} (h : "id" ∉ es.keys) :
    "id" ∉ es.layerSpelled.keys := by
  intro hid
  obtain ⟨e, he, hkey⟩ := List.mem_map.mp hid
  obtain ⟨d, hd, hspelled, -⟩ := mem_layerSpelled he
  rw [hkey] at hspelled
  exact h (eq_of_layerSpelled?_eq_id hspelled ▸ List.mem_map_of_mem hd)

/-- Entries that are put do not matter at other keys. -/
theorem Entries.lookup_foldl_put {key : String} {puts : Entries} (h : key ∉ puts.keys)
    (es : Entries) :
    lookup key (puts.foldl (fun es (k, v) => put k v es) es) = lookup key es := by
  induction puts generalizing es with
  | nil => rfl
  | cons e puts ih =>
      obtain ⟨k, v⟩ := e
      have hne : key ≠ k := fun heq => h (heq ▸ List.mem_cons_self)
      rw [List.foldl_cons, ih fun hmem => h (List.mem_cons_of_mem _ hmem)]
      exact lookup_put_of_ne hne v es

theorem Layer.lookup_id_entries (l : Layer) :
    Entries.lookup "id" l.entries.layerSpelled = some (.text l.id) := by
  obtain ⟨p, _ | s⟩ := l
  · rfl
  · rfl

/-- A layer keeps its id through updates that give none. -/
theorem Layer.yields_id_merged (l : Layer) {updates : Entries} (h : "id" ∉ updates.keys) :
    (l.merged updates).Yields (·.id = l.id) := by
  refine yields_id ?_
  rw [Entries.lookup_foldl_put (Entries.id_notMem_layerSpelled h)]
  exact l.lookup_id_entries

/-! ## What changes name -/

/-- Changes that entries give are of fields that the entries name. -/
theorem Changes.names_of_mem_ofEntries {es : Entries} {c : Field × Value} (h : c ∈ ofEntries es) :
    es.Names c.1 := by
  obtain ⟨e, he, hf, -⟩ := mem_ofEntries h
  exact ⟨e, he, hf⟩

/-- The fields given along with a whole state are those that its document names. -/
theorem State.given_of_readGiven {v : Value} {f : Field} (hwidth : f ≠ .cropWidth)
    (hheight : f ≠ .cropHeight) (h : ∀ es, v.entries? = .ok es → ¬ es.Names f) :
    (State.readGiven v).Yields fun r => f ∉ r.1 := by
  refine (yields_lift v.entries?).bind fun es hes => ?_
  refine (yields_lift es.migrate).bind fun out hout => ?_
  refine Yields.bind_any fun s => .pure fun hmem => ?_
  exact h es hes (Entries.names_of_migrate hwidth hheight hout (Entries.names_of_mem_given hmem))

end Retouch
