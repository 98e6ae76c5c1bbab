/-
  Trees in normal form.

  A tree that was put together by hand may hold positions that no reader gives: a coordinate that
  is a whole double.  Its normal form (`State.normal`) is written as the tree is
  (`State.write_normal`), and is in the form that reading gives if only the positions were not
  (`State.valid_normal`).  So all that is known of written and read trees holds of any positions.
-/
import Retouch.Proofs.State.Valid

namespace Retouch

open Check (Accepts)

/-! ## Normal form -/

/-- The properties of a layer with its positions in normal form. -/
def LayerProps.normal (p : LayerProps) : LayerProps := { p with x := p.x.normal, y := p.y.normal }

mutual

/-- A tree with all positions in normal form. -/
def State.normal : State → State
  | ⟨p, none⟩ => ⟨p, none⟩
  | ⟨p, some ls⟩ => ⟨p, some (normalLayers ls)⟩

/-- Layers with all positions in normal form. -/
def normalLayers : List Layer → List Layer
  | [] => []
  | l :: ls => l.normal :: normalLayers ls

/-- A layer with all positions on it in normal form. -/
def Layer.normal : Layer → Layer
  | ⟨p, none⟩ => ⟨p.normal, none⟩
  | ⟨p, some s⟩ => ⟨p.normal, some s.normal⟩

end

@[simp] theorem State.normal_params (s : State) : s.normal.params = s.params := by
  obtain ⟨p, _ | ls⟩ := s <;> rfl

@[simp] theorem State.normal_layers (s : State) : s.normal.layers = s.layers.map normalLayers := by
  obtain ⟨p, _ | ls⟩ := s <;> rfl

theorem normalLayers_eq_map (ls : List Layer) : normalLayers ls = ls.map Layer.normal := by
  induction ls with
  | nil => rfl
  | cons l ls ih => rw [normalLayers, ih, List.map_cons]

/-! ## Writing -/

theorem LayerProps.write_normal (p : LayerProps) : p.normal.write = p.write := by
  simp only [LayerProps.normal, LayerProps.write, Position.write_normal]

mutual

/-- A tree is written as its normal form. -/
theorem State.write_normal (s : State) : s.normal.write = s.write := by
  obtain ⟨p, _ | ls⟩ := s
  · rfl
  · rw [State.normal, State.write, State.write, writeLayers_normalLayers ls]

theorem writeLayers_normalLayers (ls : List Layer) :
    writeLayers (normalLayers ls) = writeLayers ls := by
  cases ls with
  | nil => rfl
  | cons l ls =>
      rw [normalLayers, writeLayers, writeLayers, Layer.write_normal l, writeLayers_normalLayers ls]

theorem Layer.write_normal (l : Layer) : l.normal.write = l.write := by
  obtain ⟨p, _ | s⟩ := l
  · rw [Layer.normal, Layer.write, Layer.write, LayerProps.write_normal]
  · rw [Layer.normal, Layer.write, Layer.write, LayerProps.write_normal, State.write_normal s]

end

theorem State.get_normal (s : State) (f : Field) : s.normal.get f = s.get f := by
  by_cases hf : f = .layers
  · subst hf
    simp only [State.get, normal_layers, Option.map_map]
    exact congrArg (Option.map · s.layers)
      (funext fun ls => congrArg Value.list (writeLayers_normalLayers ls))
  · rw [State.get_eq_params hf, State.get_eq_params hf, State.normal_params]

/-! ## Properties of the normal form -/

section

variable {P : Bool → Params → Prop} {Q R : LayerProps → Prop}

mutual

/-- What holds all over a tree holds all over its normal form. -/
theorem State.Holds.normal (hQ : ∀ p, Q p → R p.normal) (s : State) (inLayer : Bool)
    (h : s.Holds P Q inLayer) : s.normal.Holds P R inLayer := by
  obtain ⟨p, _ | ls⟩ := s
  · exact h
  · exact ⟨h.1, layersHold_normalLayers hQ ls h.2⟩

theorem layersHold_normalLayers (hQ : ∀ p, Q p → R p.normal) (ls : List Layer)
    (h : layersHold P Q ls) : layersHold P R (normalLayers ls) := by
  cases ls with
  | nil => trivial
  | cons l ls => exact ⟨Layer.Holds.normal hQ l h.1, layersHold_normalLayers hQ ls h.2⟩

theorem Layer.Holds.normal (hQ : ∀ p, Q p → R p.normal) (l : Layer) (h : l.Holds P Q) :
    l.normal.Holds P R := by
  obtain ⟨p, _ | s⟩ := l
  · exact hQ p h
  · exact ⟨hQ p h.1, State.Holds.normal hQ s true h.2⟩

end

end

/-- Whether the transparency of a layer is in percent. -/
def LayerProps.Admissible (p : LayerProps) : Prop := 0 ≤ p.alpha ∧ p.alpha ≤ 100

/-- Whether a tree is in the form that reading gives, except that its positions may be any. -/
def State.Admissible (s : State) : Prop :=
  s.Holds Params.Valid LayerProps.Admissible false

theorem LayerProps.valid_normal {p : LayerProps} (h : p.Admissible) : p.normal.Valid :=
  ⟨p.x.valid_normal, p.y.valid_normal, h⟩

theorem LayerProps.short_normal {p : LayerProps} (h : p.Short) : p.normal.Short :=
  ⟨h.size, Position.short_normal h.x, Position.short_normal h.y⟩

theorem State.valid_normal {s : State} (h : s.Admissible) : s.normal.Valid :=
  State.Holds.normal (fun _ => LayerProps.valid_normal) s false h

theorem State.short_normal {s : State} (h : s.Short) : s.normal.Short :=
  State.Holds.normal (fun _ => LayerProps.short_normal) s false h

theorem LayerProps.Valid.normal_eq {p : LayerProps} (h : p.Valid) : p.normal = p := by
  rw [LayerProps.normal, h.x.normal_eq, h.y.normal_eq]

mutual

/-- A tree in the form that reading gives is its own normal form. -/
theorem State.Holds.normal_eq {P : Bool → Params → Prop} (s : State) (inLayer : Bool)
    (h : s.Holds P LayerProps.Valid inLayer) : s.normal = s := by
  obtain ⟨p, _ | ls⟩ := s
  · rfl
  · rw [State.normal, layersHold.normal_eq ls h.2]

theorem layersHold.normal_eq {P : Bool → Params → Prop} (ls : List Layer)
    (h : layersHold P LayerProps.Valid ls) : normalLayers ls = ls := by
  cases ls with
  | nil => rfl
  | cons l ls => rw [normalLayers, Layer.Holds.normal_eq l h.1, layersHold.normal_eq ls h.2]

theorem Layer.Holds.normal_eq {P : Bool → Params → Prop} (l : Layer)
    (h : l.Holds P LayerProps.Valid) : l.normal = l := by
  obtain ⟨p, _ | s⟩ := l
  · rw [Layer.normal, LayerProps.Valid.normal_eq h]
  · rw [Layer.normal, h.1.normal_eq, State.Holds.normal_eq s true h.2]

end

/-! ## Layers read back -/

/-- A position that is read back is in normal form then. -/
theorem Position.accepts_check_write (p : Position) :
    (Position.check p.write).Accepts (· = p.normal) := by
  unfold Position.check
  split
  · rename_i q hq
    exact .pure (Position.eq_normal_of_read_write hq)
  · exact .note

theorem Convert.accepts_intBetween_int (low high n : Int) :
    (Convert.intBetween low high (.int n)).Accepts (· = n) := by
  show Accepts (if n < low then Check.note .belowRange n
    else if high < n then Check.note .aboveRange n else pure n) (· = n)
  split
  · exact .note
  · split
    · exact .note
    · exact .pure rfl

/-- The properties of a layer that are read back are in normal form then. -/
theorem LayerProps.accepts_write (p : LayerProps) (rest : Entries) :
    (LayerProps.read (p.write ++ rest)).Accepts (· = p.normal) := by
  rw [LayerProps.read_append]
  refine ((Position.accepts_check_write p.x).within _).bind fun x => ?_
  refine ((Position.accepts_check_write p.y).within _).bind fun y => ?_
  refine ((Convert.accepts_intBetween_int 0 100 p.alpha).within _).bind fun alpha => .pure ?_
  rintro rfl rfl rfl
  rfl

/-- A list of layers that is read from entries is in normal form then, if it was written there. -/
theorem accepts_checkLayersIn_written {es : Entries} {layers : Option (List Layer)}
    (h : es.lookup "layers" = layers.map fun ls => .list (writeLayers ls))
    (hread : ∀ ls ∈ layers, (checkItems 0 (writeLayers ls)).Accepts (· = normalLayers ls)) :
    (checkLayersIn es).Accepts (· = layers.map normalLayers) := by
  rw [checkLayersIn_eq, h]
  cases layers with
  | none => exact .pure rfl
  | some ls =>
      refine Accepts.within ?_ _
      rw [checkLayers]
      exact (hread ls rfl).map fun _ h => h ▸ rfl

theorem State.accepts_write_of_layers {s : State} {inLayer : Bool} (hp : s.params.Valid inLayer)
    (hread : ∀ ls ∈ s.layers, (checkItems 0 (writeLayers ls)).Accepts (· = normalLayers ls)) :
    (State.check inLayer s.write).Accepts (· = s.normal) := by
  have hkey : ∀ f : Field, Field.key f = f.key ∨ Field.key f = f.spelled := fun _ => .inl rfl
  have hget : ∀ f, f ≠ .layers → s.get f = s.params.get f := fun f hf => State.get_eq_params hf
  obtain ⟨hhold, hlookup⟩ :=
    Entries.hold_filterMap hkey hget (show s.get .layers = s.layers.map _ from rfl)
  rw [State.write_eq, State.entries, State.check, Params.read_eq hp hhold, pure_bind]
  refine (accepts_checkLayersIn_written hlookup hread).bind fun layers => .pure ?_
  rintro rfl
  obtain ⟨p, _ | ls⟩ := s <;> rfl

mutual

/-- A tree that is read back is in normal form then: a position whose offset has too many digits
    is refused, and nothing else is changed. -/
theorem State.accepts_write (s : State) (inLayer : Bool)
    (hvalid : s.Holds Params.Valid (fun _ => True) inLayer) :
    (State.check inLayer s.write).Accepts (· = s.normal) := by
  obtain ⟨p, _ | ls⟩ := s
  · exact State.accepts_write_of_layers hvalid.params fun _ h => by cases h
  · have hitems := accepts_checkItems_write ls 0 hvalid.2
    refine State.accepts_write_of_layers hvalid.params fun _ h => ?_
    cases h
    exact hitems

theorem accepts_checkItems_write (ls : List Layer) (n : ℕ)
    (hvalid : layersHold Params.Valid (fun _ => True) ls) :
    (checkItems n (writeLayers ls)).Accepts (· = normalLayers ls) := by
  cases ls with
  | nil =>
      rw [writeLayers, checkItems]
      exact .pure rfl
  | cons l ls =>
      have hlayer := Layer.accepts_write l hvalid.1
      have hrest := accepts_checkItems_write ls (n + 1) hvalid.2
      rw [writeLayers, checkItems]
      refine (hlayer.within _).bind fun l' => hrest.bind fun ls' => .pure ?_
      rintro rfl rfl
      rfl

theorem Layer.accepts_write (l : Layer) (hvalid : l.Holds Params.Valid fun _ => True) :
    (Layer.check l.write).Accepts (· = l.normal) := by
  obtain ⟨p, _ | s⟩ := l
  · have hnone : Entries.lookup "transforms" p.write = none := by
      simp [LayerProps.write, Entries.lookup]
    have hprops := LayerProps.accepts_write p []
    rw [List.append_nil] at hprops
    rw [Layer.write, Layer.check, checkTransformsIn_eq, hnone]
    refine hprops.bind fun q => .pure ?_
    rintro rfl
    rfl
  · have hsome : Entries.lookup "transforms" (p.write ++ [("transforms", s.write)]) =
        some s.write := by
      simp [LayerProps.write, Entries.lookup]
    have hstate := State.accepts_write s true hvalid.2
    rw [Layer.write, Layer.check, checkTransformsIn_eq, hsome]
    rw [State.write_eq] at hstate ⊢
    refine (LayerProps.accepts_write p _).bind fun q => ?_
    show (Check.within _ (checkTransforms (.object (s.entries Field.key))) >>= _).Accepts _
    rw [checkTransforms]
    refine ((hstate.map (P := (· = some s.normal)) fun _ h => h ▸ rfl).within _).bind fun t =>
      .pure ?_
    rintro rfl rfl
    rfl

end

end Retouch
