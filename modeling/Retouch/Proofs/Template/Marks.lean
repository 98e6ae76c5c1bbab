/-
  Settings of layers as templates give them.

  Skipping the layers without image, leaving out the crop and ignoring unusable values only takes
  away from the document of a template.  So a tree that is imported has the mark of the crop mode
  in a layer only if the document names it there (`clean_of_importTemplate`), and at the root it
  never has it.
-/
import Retouch.Proofs.State.Marks
import Retouch.Proofs.Template.Layers

namespace Retouch

/-! ## Skipping layers without image -/

theorem Entries.Names.of_usableLayers {f : Field} {es : Entries}
    (h : Entries.Names f (usableLayers es).1) : es.Names f := by
  obtain ⟨e, he, hf⟩ := h
  have hkey : e.1 ∈ es.keys := keys_usableLayers es ▸ List.mem_map_of_mem he
  obtain ⟨d, hd, hkey⟩ := List.mem_map.mp hkey
  exact ⟨d, hd, hkey ▸ hf⟩

mutual

theorem marksLayers_of_usableLayers : ∀ es : List (String × Value),
    Entries.MarksLayers (usableLayers es).1 → Entries.MarksLayers es
  | [], h => by
      rw [usableLayers] at h
      exact h
  | (k, v) :: es, h => by
      have hrest := marksLayers_of_usableLayers es
      -- Only a list under the key of layers is gone through; other entries stay.
      refine Entries.layersHave_cons.mpr ?_
      by_cases hk : k = "layers"
      · cases v with
        | list vs =>
            have hitems := marksLayer_of_usableItems vs
            simp only [usableLayers, if_pos hk] at h
            refine (Entries.layersHave_cons.mp h).imp_left ?_
            rintro ⟨-, kept, heq, hkept⟩
            cases heq
            exact ⟨hk, vs, rfl, hitems hkept⟩
        | _ =>
            simp only [usableLayers, if_pos hk] at h
            exact Entries.layersHave_cons.mp h
      · cases v <;> simp only [usableLayers, if_neg hk] at h
        all_goals exact (Entries.layersHave_cons.mp h).imp id hrest

theorem marksLayer_of_usableItems : ∀ vs : List Value,
    (∃ l ∈ (usableItems vs).1, l.MarksLayer) → ∃ l ∈ vs, l.MarksLayer
  | [], h => by
      rw [usableItems] at h
      exact h
  | v :: vs, h => by
      have hrest := marksLayer_of_usableItems vs
      have htail : (∃ l ∈ (usableItems vs).1, l.MarksLayer) → ∃ l ∈ v :: vs, l.MarksLayer :=
        fun h => (hrest h).imp fun l hl => ⟨List.mem_cons_of_mem _ hl.1, hl.2⟩
      cases v with
      | object es =>
          have hlayer := marksLayer_of_usableTransforms es
          simp only [usableItems] at h
          split at h
          · obtain ⟨l, hl, hmarks⟩ := h
            rcases List.mem_cons.mp hl with rfl | hl
            · exact ⟨_, List.mem_cons_self, hlayer hmarks⟩
            · exact htail ⟨l, hl, hmarks⟩
          · exact htail h
      | _ =>
          simp only [usableItems] at h
          exact htail h

theorem marksLayer_of_usableTransforms : ∀ es : List (String × Value),
    (Value.object (usableTransforms es).1).MarksLayer → (Value.object es).MarksLayer
  | [], h => by
      rw [usableTransforms] at h
      exact h
  | (k, v) :: es, h => by
      have hrest := marksLayer_of_usableTransforms es
      refine Value.hasSettings_cons.mpr ?_
      by_cases hk : k = "transforms"
      · cases v with
        | object ts =>
            have hlayers := marksLayers_of_usableLayers ts
            simp only [usableTransforms, if_pos hk] at h
            refine (Value.hasSettings_cons.mp h).imp_left ?_
            rintro ⟨-, kept, heq, hkept⟩
            cases heq
            exact ⟨hk, ts, rfl, hkept.imp .of_usableLayers hlayers⟩
        | _ =>
            simp only [usableTransforms, if_pos hk] at h
            exact Value.hasSettings_cons.mp h
      · cases v <;> simp only [usableTransforms, if_neg hk] at h
        all_goals exact (Value.hasSettings_cons.mp h).imp id hrest

end

theorem Entries.MarksLayers.of_filter {es : Entries} {keep : String × Value → Bool}
    (h : Entries.MarksLayers (es.filter keep)) : es.MarksLayers :=
  h.of_mem fun _ hv => (List.mem_filter.mp hv).1

/-! ## Ignoring unusable values -/

variable {strict : Prop}

/-- The state that is read in the end has clean layers if the entries mark none. -/
theorem clean_of_readLenient {fuel issued : Nat} {es : Entries} {ignored : List String}
    {s : State} {keys : List String} (h : strict → ¬ es.MarksLayers)
    (hread : (readLenient fuel es ignored issued).1 = .ok (some s, keys)) :
    s.Bears (Params.Clean strict) := by
  -- Each round ignores some entries and reads the others, so the layers of the last are among them.
  induction fuel generalizing es ignored issued with
  | zero => cases hread
  | succ fuel ih =>
      rw [readLenient] at hread
      split at hread
      · rename_i t n hrun
        cases hread
        exact (State.clean_of_ofEntries h).of_run (congrArg Prod.fst hrun)
      · extract_lets bad at hread
        split at hread
        · cases hread
        · exact ih (fun hstrict hmarks => h hstrict hmarks.of_filter) hread
      · cases hread

/-! ## Applying -/

theorem Template.clean_applied {t : Template} {s : State} {size : Size}
    (hs : s.Bears (Params.Clean strict)) : (t.applied s size).Bears (Params.Clean strict) := by
  unfold Template.applied
  extract_lets portable size
  clear_value size
  cases size with
  | none => exact hs
  | some d => exact hs

theorem clean_of_importDocument {es : Entries} {version : String} {s applied : State}
    {warnings : List Warning} {size : Size} {issued : Nat} {t : Template}
    (hs : s.Bears (Params.Clean strict))
    (h : (importDocument es version s warnings size issued).1.outcome = some (t, applied)) :
    applied.Bears (Params.Clean strict) := by
  unfold importDocument at h
  extract_lets around at h
  split at h
  · cases h
    exact Template.clean_applied hs
  · cases h
  · cases h

theorem parse_of_readDocument {text : String} {es : Entries} (h : readDocument text = .ok es) :
    Value.parse text = .ok (.object es) := by
  unfold readDocument at h
  split at h
  · cases h
  · rename_i es' hparse
    extract_lets missing at h
    split at h
    · cases h
    · split at h
      · cases h
        exact hparse
      · cases h
  · cases h

/-- Whether the text of a template marks a layer. -/
def TemplateMarksLayers (text : String) : Prop :=
  ∃ es ts, Value.parse text = .ok (.object es) ∧ ("transformations", .object ts) ∈ es ∧
    Entries.MarksLayers ts

/-- A tree that is imported has clean layers if the text marks none. -/
theorem clean_of_importTemplate {text : String} {size : Size} {settings : Settings}
    {issued : Nat} {r : ImportResult} {t : Template} {applied : State}
    (h : strict → ¬ TemplateMarksLayers text)
    (hr : (importTemplate text size settings issued).1 = .ok r)
    (hout : r.outcome = some (t, applied)) : applied.Bears (Params.Clean strict) := by
  unfold importTemplate at hr
  split at hr
  · cases hr
    cases hout
  · rename_i es hes
    extract_lets version found mismatch given at hr
    have hgiven : strict → ¬ Entries.MarksLayers given := by
      intro hstrict hmarks
      simp only [given] at hmarks
      split at hmarks
      · rename_i ts hts
        exact h hstrict ⟨es, ts, parse_of_readDocument hes, Entries.mem_of_lookup hts,
          hmarks.of_filter⟩
      · obtain ⟨vs, l, hmem, -⟩ := hmarks
        cases hmem
    clear_value version found mismatch given
    split at hr
    · cases hr
    · split at hr
      rename_i kept dropped hkept
      extract_lets skipped at hr
      split at hr
      · cases hr
      · rename_i hread
        extract_lets warnings at hr
        split at hr
        · cases hr
          cases hout
        · cases hr
          refine clean_of_importDocument (clean_of_readLenient ?_ (congrArg Prod.fst hread)) hout
          intro hstrict hmarks
          refine hgiven hstrict (marksLayers_of_usableLayers given ?_)
          rwa [hkept]

end Retouch
