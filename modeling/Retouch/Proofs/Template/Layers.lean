/-
  Entries without their unusable layers.

  Leaving unusable layers out of entries puts another list in the place of their list of layers, and
  does nothing to entries without such a list (`usableLayers_cases`); so it goes with the settings of
  a layer (`usableTransforms_cases`).  Of a list, the usable layers stay in their order
  (`usableItems_fst`).
-/
import Retouch.Template.Import

namespace Retouch

theorem Entries.put_eq_self {key : String} {v : Value} {es : Entries}
    (h : es.lookup key = some v) : es.put key v = es := by
  induction es with
  | nil => cases h
  | cons e es ih =>
      obtain ⟨k, w⟩ := e
      rw [lookup] at h
      rw [put]
      split at h
      case isTrue hk =>
        cases h
        rw [if_pos hk]
      case isFalse hk => rw [if_neg hk, ih h]

/-- Setting the value at a key that is there leaves the keys. -/
theorem Entries.keys_put {key : String} {v w : Value} {es : Entries}
    (h : es.lookup key = some v) : (es.put key w).keys = es.keys := by
  induction es with
  | nil => cases h
  | cons e es ih =>
      obtain ⟨k, u⟩ := e
      rw [lookup] at h
      rw [put]
      split at h
      case isTrue hk =>
        rw [if_pos hk]
        rfl
      case isFalse hk =>
        rw [if_neg hk]
        exact congrArg (k :: ·) (ih h)

/-- The usable layers take the place of a list of layers, and without a list nothing changes. -/
theorem usableLayers_cases (es : Entries) :
    (∃ vs, es.lookup "layers" = some (.list vs) ∧
      usableLayers es = (es.put "layers" (.list (usableItems vs).1), (usableItems vs).2)) ∨
    (∀ vs, es.lookup "layers" ≠ some (.list vs)) ∧ usableLayers es = (es, 0) := by
  induction es with
  | nil => exact .inr ⟨nofun, by rw [usableLayers]⟩
  | cons e es ih =>
      obtain ⟨k, v⟩ := e
      by_cases hk : k = "layers"
      · cases v with
        | list vs =>
            exact .inl ⟨vs, by simp [Entries.lookup, hk], by simp [usableLayers, Entries.put, hk]⟩
        | _ => exact .inr ⟨by simp [Entries.lookup, hk], by simp [usableLayers, hk]⟩
      · rcases ih with ⟨vs, hvs, h⟩ | ⟨hnone, h⟩
        · refine .inl ⟨vs, by rwa [Entries.lookup, if_neg hk], ?_⟩
          cases v <;> simp [usableLayers, Entries.put, hk, h]
        · refine .inr ⟨by rwa [Entries.lookup, if_neg hk], ?_⟩
          cases v <;> simp [usableLayers, hk, h]

/-- What settings keep takes their place in a layer, and without settings nothing changes. -/
theorem usableTransforms_cases (es : Entries) :
    (∃ ts, es.lookup "transforms" = some (.object ts) ∧ usableTransforms es =
      (es.put "transforms" (.object (usableLayers ts).1), (usableLayers ts).2)) ∨
    (∀ ts, es.lookup "transforms" ≠ some (.object ts)) ∧ usableTransforms es = (es, 0) := by
  induction es with
  | nil => exact .inr ⟨nofun, by rw [usableTransforms]⟩
  | cons e es ih =>
      obtain ⟨k, v⟩ := e
      by_cases hk : k = "transforms"
      · cases v with
        | object ts =>
            exact .inl ⟨ts, by simp [Entries.lookup, hk],
              by simp [usableTransforms, Entries.put, hk]⟩
        | _ => exact .inr ⟨by simp [Entries.lookup, hk], by simp [usableTransforms, hk]⟩
      · rcases ih with ⟨ts, hts, h⟩ | ⟨hnone, h⟩
        · refine .inl ⟨ts, by rwa [Entries.lookup, if_neg hk], ?_⟩
          cases v <;> simp [usableTransforms, Entries.put, hk, h]
        · refine .inr ⟨by rwa [Entries.lookup, if_neg hk], ?_⟩
          cases v <;> simp [usableTransforms, hk, h]

/-- Entries without unusable layers are left as they are. -/
theorem usableLayers_eq_self {es : Entries}
    (h : ∀ vs, es.lookup "layers" = some (.list vs) → usableItems vs = (vs, 0)) :
    usableLayers es = (es, 0) := by
  rcases usableLayers_cases es with ⟨vs, hvs, heq⟩ | ⟨-, heq⟩
  · rw [heq, h vs hvs, Entries.put_eq_self hvs]
  · exact heq

/-- Entries whose settings are without unusable layers are left as they are. -/
theorem usableTransforms_eq_self {es : Entries}
    (h : ∀ ts, es.lookup "transforms" = some (.object ts) → usableLayers ts = (ts, 0)) :
    usableTransforms es = (es, 0) := by
  rcases usableTransforms_cases es with ⟨ts, hts, heq⟩ | ⟨-, heq⟩
  · rw [heq, h ts hts, Entries.put_eq_self hts]
  · exact heq

theorem keys_usableLayers (es : Entries) : Entries.keys (usableLayers es).1 = es.keys := by
  rcases usableLayers_cases es with ⟨vs, hvs, heq⟩ | ⟨-, heq⟩
  · rw [heq, Entries.keys_put hvs]
  · rw [heq]

/-- Leaving layers out leaves what is at other keys. -/
theorem lookup_usableLayers_of_ne {key : String} (hkey : key ≠ "layers") (es : Entries) :
    Entries.lookup key (usableLayers es).1 = es.lookup key := by
  rcases usableLayers_cases es with ⟨vs, -, heq⟩ | ⟨-, heq⟩
  · rw [heq, Entries.lookup_put_of_ne hkey]
  · rw [heq]

theorem lookup_usableTransforms_of_ne {key : String} (hkey : key ≠ "transforms") (es : Entries) :
    Entries.lookup key (usableTransforms es).1 = es.lookup key := by
  rcases usableTransforms_cases es with ⟨ts, -, heq⟩ | ⟨-, heq⟩
  · rw [heq, Entries.lookup_put_of_ne hkey]
  · rw [heq]

/-! ## Lists of layers -/

/-- A layer without unusable layers in its settings. -/
def Value.tidied : Value → Value
  | .object es => .object (usableTransforms es).1
  | v => v

theorem Value.exists_of_isUsableLayer {v : Value} (h : v.isUsableLayer = true) :
    ∃ es : Entries, v = .object es := by
  cases v with
  | object es => exact ⟨es, rfl⟩
  | _ => cases h

/-- A list keeps its usable layers in order. -/
theorem usableItems_fst (vs : List Value) :
    (usableItems vs).1 = (vs.filter Value.isUsableLayer).map Value.tidied := by
  induction vs with
  | nil => rw [usableItems]; rfl
  | cons v vs ih =>
      cases husable : v.isUsableLayer with
      | true =>
          obtain ⟨es, rfl⟩ := Value.exists_of_isUsableLayer husable
          simp [usableItems, husable, ih, Value.tidied]
      | false => cases v <;> simp [usableItems, husable, ih]

end Retouch
