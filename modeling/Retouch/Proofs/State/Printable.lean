/-
  Trees of which every number can be written in words.

  The compact text of a value and the word of a position hold only numbers that do not have too
  many digits.  A tree of which all of that can be written has only short numbers
  (`State.short_of_printable`), and its normal form can be written as well
  (`State.hasPrintableOffsets_normal`).
-/
import Retouch.Proofs.State.Normal

namespace Retouch

/-! ## Numbers that were written -/

namespace Value

theorem proper_int_iff {n : ℤ} : (Value.int n).isPrintable = true ↔ (Value.int n).Proper := by
  rw [isPrintable, decide_eq_true_iff, Proper]

theorem printableEntries_iff {es : Entries} :
    printableEntries es = true ↔ ∀ e ∈ es, e.2.isPrintable = true := by
  induction es with
  | nil => simp [printableEntries]
  | cons e es ih =>
      obtain ⟨k, v⟩ := e
      simp [printableEntries, ih]

end Value

theorem Size.proper_of_printable {s : Size} (h : s.write.isPrintable = true) : s.write.Proper := by
  have h := Value.printableEntries_iff.mp h
  have hkeys : ["width", "height"].Nodup := by decide
  exact ⟨hkeys, Value.proper_int_iff.mp (h _ List.mem_cons_self),
    Value.proper_int_iff.mp (h _ (List.mem_cons_of_mem _ List.mem_cons_self)), trivial⟩

theorem Position.short_of_printable {p : Position} (hoffset : p.isPrintable = true)
    (h : p.write.isPrintable = true) : p.Short := by
  cases p with
  | absolute px =>
      cases px with
      | int n => exact Value.proper_int_iff.mp h
      | float x => trivial
  | aligned side outside =>
      rw [Position.isPrintable, decide_eq_true_iff] at hoffset
      exact hoffset
  | centered => trivial

theorem Params.proper_of_get {p : Params} {f : Field} {v : Value} (hv : p.get f = some v)
    (h : v.isPrintable = true) : v.Proper := by
  obtain ⟨n, rfl⟩ | ⟨x, rfl⟩ | ⟨b, rfl⟩ | ⟨t, rfl⟩ | ⟨s, rfl⟩ := Params.get_cases hv
  · exact Value.proper_int_iff.mp h
  · trivial
  · trivial
  · trivial
  · exact Size.proper_of_printable h

mutual

/-- A tree of which everything can be written has only short numbers. -/
theorem State.short_of_printable (s : State) (inLayer : Bool)
    (hoffsets : s.hasPrintableOffsets = true)
    (h : ∀ f v, s.get f = some v → v.isPrintable = true) :
    s.Holds (fun _ => Params.Short) LayerProps.Short inLayer := by
  obtain ⟨p, layers⟩ := s
  have hparams : p.Short := by
    intro f v hv
    by_cases hf : f = .layers
    · subst hf
      cases hv
    · exact Params.proper_of_get hv (h f v (by rwa [State.get_eq_params hf]))
  cases layers with
  | none => exact hparams
  | some ls => exact ⟨hparams, layersShort_of_printable ls hoffsets (h .layers _ rfl)⟩

theorem layersShort_of_printable (ls : List Layer) (hoffsets : havePrintableOffsets ls = true)
    (h : Value.printableItems (writeLayers ls) = true) :
    layersHold (fun _ => Params.Short) LayerProps.Short ls := by
  cases ls with
  | nil => trivial
  | cons l ls =>
      obtain ⟨hl, hls⟩ := Bool.and_eq_true_iff.mp hoffsets
      obtain ⟨hlayer, hlayers⟩ := Bool.and_eq_true_iff.mp h
      exact ⟨Layer.short_of_printable l hl hlayer, layersShort_of_printable ls hls hlayers⟩

theorem Layer.short_of_printable (l : Layer) (hoffsets : l.hasPrintableOffsets = true)
    (h : l.write.isPrintable = true) :
    l.Holds (fun _ => Params.Short) LayerProps.Short := by
  obtain ⟨p, transforms⟩ := l
  -- The properties are written in front of the settings, if there are any.
  have hprops : ∀ es, (∀ e ∈ p.write ++ es, e.2.isPrintable = true) → p.x.isPrintable = true →
      p.y.isPrintable = true → p.Short := by
    intro es hes hx hy
    have hentry : ∀ e ∈ [("originalDimensions", p.originalDimensions.write), ("x", p.x.write),
        ("y", p.y.write)], e.2.isPrintable = true := by
      intro e he
      refine hes e (List.mem_append_left es ?_)
      simp only [List.mem_cons, List.not_mem_nil, or_false] at he
      rcases he with rfl | rfl | rfl <;> simp [LayerProps.write]
    simp only [List.forall_mem_cons] at hentry
    exact ⟨Size.proper_of_printable hentry.1, Position.short_of_printable hx hentry.2.1,
      Position.short_of_printable hy hentry.2.2.1⟩
  cases transforms with
  | none =>
      obtain ⟨hx, hy⟩ := Bool.and_eq_true_iff.mp hoffsets
      exact hprops [] (by simpa using Value.printableEntries_iff.mp h) hx hy
  | some s =>
      obtain ⟨hhere, hstate⟩ := Bool.and_eq_true_iff.mp hoffsets
      obtain ⟨hx, hy⟩ := Bool.and_eq_true_iff.mp hhere
      have hentries := Value.printableEntries_iff.mp h
      have hwritten : s.write.isPrintable = true :=
        hentries ("transforms", s.write) (List.mem_append_right _ (List.mem_singleton.mpr rfl))
      refine ⟨hprops _ hentries hx hy, State.short_of_printable s true hstate fun f v hv => ?_⟩
      rw [State.write_eq] at hwritten
      refine Value.printableEntries_iff.mp hwritten (f.key, v) ?_
      exact List.mem_filterMap.mpr ⟨f, f.mem_all, by rw [hv]; rfl⟩

end

/-- A tree that can be written has only short numbers. -/
theorem State.short_of_write {s : State} (hoffsets : s.hasPrintableOffsets = true)
    (h : s.write.isPrintable = true) : s.Short := by
  rw [State.write_eq] at h
  refine State.short_of_printable s false hoffsets fun f v hv => ?_
  exact Value.printableEntries_iff.mp h (f.key, v)
    (List.mem_filterMap.mpr ⟨f, f.mem_all, by rw [hv]; rfl⟩)

/-! ## Normal form -/

mutual

/-- The normal form has the same offsets. -/
theorem State.hasPrintableOffsets_normal (s : State) :
    s.normal.hasPrintableOffsets = s.hasPrintableOffsets := by
  obtain ⟨p, _ | ls⟩ := s
  · rfl
  · exact havePrintableOffsets_normalLayers ls

theorem havePrintableOffsets_normalLayers (ls : List Layer) :
    havePrintableOffsets (normalLayers ls) = havePrintableOffsets ls := by
  cases ls with
  | nil => rfl
  | cons l ls =>
      rw [normalLayers, havePrintableOffsets, havePrintableOffsets,
        Layer.hasPrintableOffsets_normal l, havePrintableOffsets_normalLayers ls]

theorem Layer.hasPrintableOffsets_normal (l : Layer) :
    l.normal.hasPrintableOffsets = l.hasPrintableOffsets := by
  have hposition : ∀ p : Position, p.normal.isPrintable = p.isPrintable := fun p => by
    cases p <;> rfl
  obtain ⟨p, _ | s⟩ := l
  · rw [Layer.normal, Layer.hasPrintableOffsets, Layer.hasPrintableOffsets]
    simp only [LayerProps.normal, hposition]
  · rw [Layer.normal, Layer.hasPrintableOffsets, Layer.hasPrintableOffsets,
      State.hasPrintableOffsets_normal s]
    simp only [LayerProps.normal, hposition]

end

end Retouch
