/-
  States that can go through a template.

  A state that can be written as a template (`State.Exportable`) has only numbers that are read
  again, and every layer in it has an image.  So is a part of it, the same layers with some of the
  settings (`State.Part.exportable`).  Of such a state nothing is dropped
  (`State.usableLayers_entries`) and nothing is ignored (`State.readLenient_entries`).
-/
import Retouch.Proofs.State.Printable
import Retouch.Proofs.Template.Layers

namespace Retouch

/-! ## Doubles that can be written -/

/-- Whether a position is no coordinate without a value. -/
def Position.Finite : Position → Prop
  | .absolute (.float x) => Number.isFinite x = true
  | _ => True

/-- Whether the doubles of settings are neither infinite nor no numbers. -/
def Params.Finite (p : Params) : Prop :=
  ∀ f x, p.get f = some (.float x) → Number.isFinite x = true

/-- Whether the positions of a layer have values. -/
structure LayerProps.Finite (p : LayerProps) : Prop where
  x : p.x.Finite
  y : p.y.Finite

/-- Whether no double of a tree is infinite or no number. -/
def State.Finite (s : State) : Prop := s.Holds (fun _ => Params.Finite) LayerProps.Finite false

theorem Size.finite_write (s : Size) : s.write.Finite :=
  ⟨trivial, trivial, trivial⟩

theorem Position.finite_write {p : Position} (h : p.Finite) : p.write.Finite := by
  cases p with
  | aligned side outside => cases outside <;> trivial
  | centered => trivial
  | absolute px =>
      cases px with
      | int n => trivial
      | float x =>
          rw [Position.write, Number.normalize]
          cases Number.whole? x with
          | none => exact h
          | some n => trivial

theorem Params.finite_of_get {p : Params} (hp : p.Finite) {f : Field} {v : Value}
    (hv : p.get f = some v) : v.Finite := by
  obtain ⟨n, rfl⟩ | ⟨x, rfl⟩ | ⟨b, rfl⟩ | ⟨t, rfl⟩ | ⟨s, rfl⟩ := Params.get_cases hv
  · trivial
  · exact hp f x hv
  · trivial
  · trivial
  · exact s.finite_write

theorem LayerProps.finiteEntries_write {p : LayerProps} (h : p.Finite) :
    Value.FiniteEntries p.write :=
  ⟨trivial, trivial, Size.finite_write _, Position.finite_write h.x, Position.finite_write h.y,
    trivial, trivial, trivial, trivial, trivial⟩

/-- A state is written without special doubles if its layers are. -/
theorem State.finite_of_layers {s : State} (hparams : s.params.Finite)
    (hlayers : ∀ ls ∈ s.layers, Value.FiniteItems (writeLayers ls)) : s.write.Finite := by
  rw [State.write_eq]
  refine Value.finiteEntries_iff.mpr fun e he => ?_
  obtain ⟨f, -, hf⟩ := List.mem_filterMap.mp he
  obtain ⟨v, hv, rfl⟩ := Option.map_eq_some_iff.mp hf
  by_cases hlast : f = .layers
  · subst hlast
    obtain ⟨ls, hls, rfl⟩ := Option.map_eq_some_iff.mp hv
    exact hlayers ls hls
  · exact Params.finite_of_get hparams (State.get_eq_params hlast ▸ hv)

mutual

theorem State.finite_write (s : State) (inLayer : Bool)
    (h : s.Holds (fun _ => Params.Finite) LayerProps.Finite inLayer) : s.write.Finite := by
  obtain ⟨p, _ | ls⟩ := s
  · exact State.finite_of_layers h.params fun _ h => by cases h
  · have hitems := finiteItems_writeLayers ls h.2
    refine State.finite_of_layers h.params fun _ h => ?_
    cases h
    exact hitems

theorem finiteItems_writeLayers (ls : List Layer)
    (h : layersHold (fun _ => Params.Finite) LayerProps.Finite ls) :
    Value.FiniteItems (writeLayers ls) := by
  cases ls with
  | nil => trivial
  | cons l ls => exact ⟨Layer.finite_write l h.1, finiteItems_writeLayers ls h.2⟩

theorem Layer.finite_write (l : Layer)
    (h : l.Holds (fun _ => Params.Finite) LayerProps.Finite) : l.write.Finite := by
  obtain ⟨p, _ | s⟩ := l
  · exact LayerProps.finiteEntries_write h
  · have hstate := State.finite_write s true h.2
    refine Value.finiteEntries_iff.mpr fun e he => ?_
    rcases List.mem_append.mp he with he | he
    · exact Value.finiteEntries_iff.mp (LayerProps.finiteEntries_write h.1) e he
    · rw [List.mem_singleton.mp he]
      exact hstate

end

/-! ## Layers with an image -/

/-- Whether a layer has an image and its size. -/
structure LayerProps.Usable (p : LayerProps) : Prop where
  image : p.imagePath ≠ ""
  width : p.originalDimensions.width ≠ 0
  height : p.originalDimensions.height ≠ 0

theorem LayerProps.isUsableLayer_append {p : LayerProps} (h : p.Usable) (rest : Entries) :
    (Value.object (p.write ++ rest)).isUsableLayer = true := by
  have hpath : (p.write ++ rest).lookup "imagePath" = some (.text p.imagePath) := by
    simp [LayerProps.write, Entries.lookup]
  have hsize : (p.write ++ rest).lookup "originalDimensions" =
      some p.originalDimensions.write := by
    simp [LayerProps.write, Entries.lookup]
  simp [Value.isUsableLayer, Entries.firstOf, hpath, hsize, Value.ofOption, Value.isWord,
    Size.write, Entries.lookup, Value.isSomething, h.image, h.width, h.height]

/-- Whether every layer of a tree has an image and its size. -/
def State.Usable (s : State) : Prop := s.Holds (fun _ _ => True) LayerProps.Usable false

mutual

/-- Where every layer has an image, none is dropped. -/
theorem State.usableLayers_entries (s : State) (inLayer : Bool)
    (h : s.Holds (fun _ _ => True) LayerProps.Usable inLayer) :
    usableLayers (s.entries Field.key) = (s.entries Field.key, 0) := by
  have hlookup : (s.entries Field.key).lookup "layers" = s.get .layers :=
    State.lookup_entries Field.key_inj s .layers
  obtain ⟨p, _ | ls⟩ := s
  · exact usableLayers_eq_self fun vs hvs => by cases hlookup.symm.trans hvs
  · have hitems := usableItems_writeLayers ls h.2
    refine usableLayers_eq_self fun vs hvs => ?_
    cases hlookup.symm.trans hvs
    exact hitems

theorem usableItems_writeLayers (ls : List Layer)
    (h : layersHold (fun _ _ => True) LayerProps.Usable ls) :
    usableItems (writeLayers ls) = (writeLayers ls, 0) := by
  cases ls with
  | nil => rw [writeLayers, usableItems]
  | cons l ls =>
      have hrest := usableItems_writeLayers ls h.2
      obtain ⟨es, hes, husable, hinside⟩ := Layer.usableTransforms_write l h.1
      rw [writeLayers, hes, usableItems, hrest, hinside]
      exact if_pos husable

theorem Layer.usableTransforms_write (l : Layer)
    (h : l.Holds (fun _ _ => True) LayerProps.Usable) :
    ∃ es, l.write = .object es ∧ (Value.object es).isUsableLayer = true ∧
      usableTransforms es = (es, 0) := by
  obtain ⟨p, _ | s⟩ := l
  · have hnone : Entries.lookup "transforms" p.write = none := by
      simp [LayerProps.write, Entries.lookup]
    refine ⟨p.write, rfl, ?_, usableTransforms_eq_self fun ts hts => by cases hnone.symm.trans hts⟩
    simpa using LayerProps.isUsableLayer_append h []
  · have hsome : Entries.lookup "transforms" (p.write ++ [("transforms", s.write)]) =
        some s.write := by
      simp [LayerProps.write, Entries.lookup]
    have hstate := State.usableLayers_entries s true h.2
    refine ⟨_, rfl, LayerProps.isUsableLayer_append h.1 _,
      usableTransforms_eq_self fun ts hts => ?_⟩
    rw [hsome, State.write_eq] at hts
    cases hts
    exact hstate

end

/-! ## States that can be written as a template -/

/-- Whether a state can go into a template and come back: its numbers can be written and are not
    too long to be read, and its layers have images. -/
structure State.Exportable (s : State) : Prop where
  admissible : s.Admissible
  short : s.Short
  finite : s.Finite
  usable : s.Usable

/-- Whether a state has the layers of another one, and some of its settings. -/
structure State.Part (u s : State) : Prop where
  layers : u.layers = s.layers
  params : ∀ f v, u.params.get f = some v → s.params.get f = some v

namespace State

variable {s u : State}

theorem Holds.of_layers {P : Bool → Params → Prop} {Q : LayerProps → Prop} {inLayer : Bool}
    (hs : s.Holds P Q inLayer) (hlayers : u.layers = s.layers) (hp : P inLayer u.params) :
    u.Holds P Q inLayer := by
  obtain ⟨p, _ | ls⟩ := u
  · exact hp
  · exact ⟨hp, hs.layers hlayers.symm⟩

/-- A part of a state can be written if the state can. -/
theorem Part.exportable (h : u.Part s) (hs : s.Exportable) : u.Exportable where
  admissible := by
    refine hs.admissible.of_layers h.layers ⟨fun n hn => ?_, fun h => by cases h⟩
    have hget := h.params .rotation (.int n) (by rw [Params.get, hn]; rfl)
    obtain ⟨m, hm, hmn⟩ := Option.map_eq_some_iff.mp hget
    rw [Value.int.inj hmn] at hm
    exact hs.admissible.params.rotation n hm
  short := hs.short.of_layers h.layers fun f v hv => hs.short.params f v (h.params f v hv)
  finite := hs.finite.of_layers h.layers fun f x hx => hs.finite.params f x (h.params f _ hx)
  usable := hs.usable.of_layers h.layers trivial

/-- A state is written without lone surrogates and long numbers if it has none. -/
theorem proper_of_short (hs : s.Admissible) (hshort : s.Short) : s.write.Proper := by
  rw [← State.write_normal]
  exact State.proper_write _ false (State.valid_normal hs) (State.short_normal hshort)

/-- A state without long numbers is read back in its normal form. -/
theorem check_of_short (hs : s.Admissible) (hshort : s.Short) :
    State.check false s.write = pure s.normal := by
  rw [← State.write_normal]
  exact State.check_write (fun _ => LayerProps.Short.printable) _ false (State.valid_normal hs)
    (State.short_normal hshort)

/-- A state that can be written is read back in its normal form. -/
theorem ofEntries_entries (hs : s.Exportable) (issued : ℕ) :
    (State.ofEntries (s.entries Field.key)).run issued = (.ok s.normal, issued) := by
  have hcheck : State.check false (.object (s.entries Field.key)) = pure s.normal := by
    rw [← State.write_eq]
    exact State.check_of_short hs.admissible hs.short
  rw [State.ofEntries, State.entries, Entries.migrate_filterMap]
  show (State.check false (.object (s.entries Field.key))).run issued = _
  rw [hcheck]
  rfl

/-- Nothing of a state that can be written is ignored. -/
theorem readLenient_entries (hs : s.Exportable) (fuel issued : ℕ) :
    readLenient (fuel + 1) (s.entries Field.key) [] issued = (.ok (some s.normal, []), issued) := by
  rw [readLenient, ofEntries_entries hs]

theorem map_writeLayers_normal (s : State) :
    s.normal.layers.map writeLayers = s.layers.map writeLayers := by
  rw [normal_layers, Option.map_map]
  exact congrArg (Option.map · s.layers) (funext writeLayers_normalLayers)

/-! ## What goes into a template -/

theorem get_withoutCrop (s : State) (f : Field) :
    s.withoutCrop.get f = if f.key ∈ cropKeys then none else s.get f := by
  cases f <;> rfl

theorem part_withoutCrop (s : State) : s.withoutCrop.Part s where
  layers := rfl
  params f v hv := by
    cases f <;> first | exact hv | cases hv

/-- Without the keys of a crop the entries of a state are those without its crop. -/
theorem filter_entries_crop (s : State) :
    (s.entries Field.key).filter (fun e => !cropKeys.contains e.1) =
      s.withoutCrop.entries Field.key := by
  have hfield : ∀ f, ((s.get f).map (f.key, ·)).filter (fun e => !cropKeys.contains e.1) =
      (s.withoutCrop.get f).map (f.key, ·) := by
    intro f
    rw [get_withoutCrop]
    by_cases hcrop : f.key ∈ cropKeys <;> cases s.get f <;> simp [Option.filter, hcrop]
  rw [entries, entries, List.filter_filterMap]
  simp only [hfield]

end State

end Retouch
