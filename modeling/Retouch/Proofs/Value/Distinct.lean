/-
  Objects whose keys are distinct.

  A key that occurs again in the text of an object replaces the value of the earlier one
  (`Entries.ofPairs`), so all objects of a value that is read from a text hold each of their keys
  once, at any depth (`Value.distinct_of_parse`).
-/
import Retouch.Proofs.Result
import Retouch.Value.Reader

namespace Retouch

/-! ## Entries that are put -/

/-- What is in the end of a fold was there at first or was brought in by a step. -/
theorem mem_foldl {α β : Type} {step : List β → α → List β} {R : α → β → Prop}
    (hstep : ∀ bs a b, b ∈ step bs a → b ∈ bs ∨ R a b) {as : List α} {bs : List β} {b : β}
    (h : b ∈ as.foldl step bs) : b ∈ bs ∨ ∃ a ∈ as, R a b := by
  induction as generalizing bs with
  | nil => exact .inl h
  | cons a as ih =>
      rcases ih h with h | ⟨c, hc, h⟩
      · exact (hstep bs a b h).imp_right fun h => ⟨a, List.mem_cons_self, h⟩
      · exact .inr ⟨c, List.mem_cons_of_mem _ hc, h⟩

namespace Entries

variable {es pairs : Entries} {key k : String} {v : Value} {e : String × Value}

theorem mem_put (h : e ∈ es.put key v) : e = (key, v) ∨ e ∈ es := by
  induction es with
  | nil => exact .inl (List.mem_singleton.mp h)
  | cons x es ih =>
      obtain ⟨k, w⟩ := x
      rw [put] at h
      split at h
      · rename_i hk
        rcases List.mem_cons.mp h with rfl | htail
        · exact .inl (hk ▸ rfl)
        · exact .inr (List.mem_cons_of_mem _ htail)
      · rcases List.mem_cons.mp h with rfl | htail
        · exact .inr List.mem_cons_self
        · exact (ih htail).imp_right (List.mem_cons_of_mem _)

theorem keys_put_subset (h : k ∈ (es.put key v).keys) : k = key ∨ k ∈ es.keys := by
  obtain ⟨e, he, rfl⟩ := List.mem_map.mp h
  exact (mem_put he).imp (congrArg Prod.fst) List.mem_map_of_mem

theorem nodup_put (h : es.keys.Nodup) : (es.put key v).keys.Nodup := by
  induction es with
  | nil => exact List.nodup_cons.mpr ⟨List.not_mem_nil, List.nodup_nil⟩
  | cons e es ih =>
      obtain ⟨j, w⟩ := e
      obtain ⟨hj, hes⟩ := List.nodup_cons.mp h
      rw [put]
      split
      · exact h
      · rename_i hne
        refine List.nodup_cons.mpr ⟨fun hmem => ?_, ih hes⟩
        exact (keys_put_subset hmem).elim hne hj

theorem mem_ofPairs (h : e ∈ ofPairs pairs) : e ∈ pairs := by
  rcases mem_foldl (R := fun pair e => e = pair) (fun es pair e h => (mem_put h).symm) h with
    h | ⟨pair, hpair, rfl⟩
  · cases h
  · exact hpair

theorem nodup_keys_ofPairs (pairs : Entries) : (ofPairs pairs).keys.Nodup := by
  have hfold : ∀ es : Entries, es.keys.Nodup →
      (keys (pairs.foldl (fun es e => put e.1 e.2 es) es)).Nodup := by
    induction pairs with
    | nil => exact fun es h => h
    | cons pair pairs ih => exact fun es h => ih _ (nodup_put h)
  exact hfold [] List.nodup_nil

end Entries

/-! ## Values that are read -/

namespace Value

/-- Whether every object in a value holds each of its keys once. -/
inductive Distinct : Value → Prop where
  | plain {v : Value} (hlist : ∀ vs, v ≠ .list vs) (hobject : ∀ es, v ≠ .object es) : Distinct v
  | list {vs : List Value} (items : ∀ v ∈ vs, Distinct v) : Distinct (.list vs)
  | object {es : Entries} (keys : es.keys.Nodup) (values : ∀ e ∈ es, Distinct e.2) :
      Distinct (.object es)

theorem distinct_readUnsigned {negative : Bool} {cs rest : List Char} {v : Value}
    (h : readUnsigned negative cs = .ok (v, rest)) : v.Distinct := by
  unfold readUnsigned at h
  split at h
  · cases h
  · dsimp only at h
    split at h
    · split at h
      · cases h
      · cases h
        exact .plain nofun nofun
    · cases h
      exact .plain nofun nofun

theorem distinct_readWord {word : String} {v w : Value} {cs rest : List Char}
    (h : readWord word w cs = .ok (v, rest)) (hw : w.Distinct) : v.Distinct := by
  unfold readWord at h
  split at h
  · cases h
    exact hw
  · cases h

theorem distinct_readAtom {cs rest : List Char} {v : Value} (h : readAtom cs = .ok (v, rest)) :
    v.Distinct := by
  unfold readAtom at h
  split at h
  iterate 6 exact distinct_readWord h (.plain nofun nofun)
  · exact distinct_readUnsigned h
  · exact distinct_readUnsigned h

theorem distinct_ofCodes (codes : List Nat) : (ofCodes codes).Distinct := by
  unfold ofCodes
  extract_lets joined
  split
  · exact .plain nofun nofun
  · exact .plain nofun nofun

/-- Each of the readers goes on with less fuel, so the induction is on the fuel of all three. -/
theorem distinct_read (fuel : Nat) :
    (∀ {cs rest v}, readValue fuel cs = .ok (v, rest) → v.Distinct) ∧
    (∀ {cs rest vs}, readItems fuel cs = .ok (vs, rest) → ∀ v ∈ vs, v.Distinct) ∧
    ∀ {cs rest} {es : Entries}, readPairs fuel cs = .ok (es, rest) → ∀ e ∈ es, e.2.Distinct := by
  induction fuel with
  | zero => exact ⟨nofun, nofun, nofun⟩
  | succ fuel ih =>
      obtain ⟨hvalue, hitems, hpairs⟩ := ih
      refine ⟨fun h => ?_, fun h => ?_, fun h => ?_⟩
      · unfold readValue at h
        split at h
        · cases h
        · obtain ⟨p, -, hp⟩ := of_map_eq_ok h
          cases hp
          exact distinct_ofCodes _
        · cases ‹fuel + 1 = _›
          split at h
          · cases h
            exact .list nofun
          · obtain ⟨p, hread, hp⟩ := of_map_eq_ok h
            cases hp
            exact .list (hitems hread)
        · cases ‹fuel + 1 = _›
          split at h
          · cases h
            exact .object List.nodup_nil nofun
          · obtain ⟨p, hread, hp⟩ := of_map_eq_ok h
            cases hp
            exact .object (Entries.nodup_keys_ofPairs _) fun e he =>
              hpairs hread e (Entries.mem_ofPairs he)
        · exact distinct_readAtom h
      · unfold readItems at h
        split at h
        · cases h
        · rename_i v r hread
          split at h
          · cases h
            exact List.forall_mem_singleton.mpr (hvalue hread)
          · obtain ⟨p, hrest, hp⟩ := of_map_eq_ok h
            cases hp
            exact List.forall_mem_cons.mpr ⟨hvalue hread, hitems hrest⟩
          · cases h
      · unfold readPairs at h
        split at h
        · cases h
        · cases ‹fuel + 1 = _›
          split at h
          · cases h
          · split at h
            · split at h
              · cases h
              · rename_i v r hread
                split at h
                · cases h
                  exact List.forall_mem_singleton.mpr (hvalue hread)
                · obtain ⟨p, hrest, hp⟩ := of_map_eq_ok h
                  cases hp
                  exact List.forall_mem_cons.mpr ⟨hvalue hread, hpairs hrest⟩
                · cases h
            · cases h
        · cases h

/-- A value that is read from a text holds objects with distinct keys only. -/
theorem distinct_of_parse {text : String} {v : Value} (h : parse text = .ok v) : v.Distinct := by
  have hall : readAll text.toList = .ok v := of_mapError_eq_ok h
  unfold readAll at hall
  split at hall
  · cases hall
  · split at hall
    · cases hall
    · rename_i w rest hread
      split at hall
      · cases hall
        exact (distinct_read _).1 hread
      · cases hall

end Value

end Retouch
