/-
  Trees read back from what they are written as.

  Every field of a state is looked up under its key and found as it was written, so reading gives
  the state back without noting a problem (`State.check_entries`).  That needs a tree in the form
  that reading gives (`State.Valid`): rotations within one turn, positions in normal form, no
  image named below the root.
-/
import Retouch.Proofs.Position
import Retouch.Proofs.State.Plain
import Retouch.Proofs.Value.ReadBack
import Retouch.State.Merge

namespace Retouch

/-! ## Checks that note nothing -/

namespace Check

variable {α : Type} {step : Step} {a : α}

@[simp] theorem within_pure : within step (pure a : Check α) = pure a := by
  funext p
  simp [within, pure, ExceptT.pure, ExceptT.mk, StateT.pure]

end Check

section

variable {α : Type} {es : Entries} {a : α} {v : Value} {first second key : String}
  {c : Value → Check α}

theorem Entries.spelled?_of_lookup (h : es.lookup first = some v) :
    es.spelled? first second = some (first, v) := by
  rw [Entries.spelled?, h]

theorem required_of_lookup [Inhabited α] (h : es.lookup key = some v) (hc : c v = pure a) :
    Convert.required es key c = pure a := by
  rw [Convert.required, h]
  show Check.within _ (c v) = _
  rw [hc, Check.within_pure]

theorem requiredField_of_lookup [Inhabited α] (h : es.lookup first = some v)
    (hc : c v = pure a) : requiredField es first second c = pure a := by
  rw [requiredField, Entries.spelled?_of_lookup h]
  show Check.within _ (c v) = _
  rw [hc, Check.within_pure]

theorem fieldOr_of_lookup {default : α} (h : es.lookup first = some v) (hc : c v = pure a) :
    fieldOr es first second default c = pure a := by
  rw [fieldOr, Entries.spelled?_of_lookup h]
  show Check.within _ (c v) = _
  rw [hc, Check.within_pure]

/-- A value that is optional or null is read back if it is written as itself when it is there. -/
theorem optionalKey_eq {o : Option α} {w : α → Value}
    (h : (es.spelled? first second).map (·.2) = o.map w)
    (hc : ∀ a ∈ o, w a ≠ .null ∧ c (w a) = pure a) :
    (match es.spelled? first second with
      | none => pure none
      | some (_, .null) => pure none
      | some (key, v) => Check.within (.key key) (some <$> c v)) = (pure o : Check (Option α)) := by
  cases o with
  | none =>
      rw [Option.map_none, Option.map_eq_none_iff] at h
      rw [h]
  | some a =>
      obtain ⟨⟨k, v⟩, hkey, hv⟩ := Option.map_eq_some_iff.mp h
      obtain ⟨hnull, hread⟩ := hc a rfl
      have hv : v = w a := hv
      subst hv
      rw [hkey]
      split
      · rename_i hnone
        cases hnone
      · rename_i hsome
        exact absurd (Prod.mk.inj (Option.some.inj hsome)).2 hnull
      · rename_i hsome
        cases hsome
        rw [hread]
        exact Check.within_pure

/-- An optional field that is written as its value, if it has one, is read back. -/
theorem optionalField_eq {o : Option α} {f : Field} {w : α → Value}
    (h : (es.spelled? f.key f.spelled).map (·.2) = o.map w)
    (hc : ∀ a ∈ o, w a ≠ .null ∧ c (w a) = pure a) : optionalField es f c = pure o :=
  optionalKey_eq h hc

end

/-! ## Settings -/

section

variable {es : Entries} {f : Field}

theorem optionalField_int {o : Option Int}
    (h : (es.spelled? f.key f.spelled).map (·.2) = o.map .int) :
    optionalField es f Convert.int = pure o :=
  optionalField_eq h fun _ _ => ⟨by simp, rfl⟩

theorem optionalField_truth {o : Option Bool}
    (h : (es.spelled? f.key f.spelled).map (·.2) = o.map .bool) :
    optionalField es f Convert.truth = pure o :=
  optionalField_eq h fun _ _ => ⟨by simp, rfl⟩

theorem optionalField_double {o : Option Float}
    (h : (es.spelled? f.key f.spelled).map (·.2) = o.map .float) :
    optionalField es f Convert.double = pure o :=
  optionalField_eq h fun _ _ => ⟨by simp, rfl⟩

theorem optionalField_text {o : Option String}
    (h : (es.spelled? f.key f.spelled).map (·.2) = o.map .text) :
    optionalField es f Convert.text = pure o :=
  optionalField_eq h fun _ _ => ⟨by simp, rfl⟩

end

theorem Size.read_write (s : Size) : Size.read s.write = pure s := by
  have hwidth : Entries.lookup "width" [("width", .int s.width), ("height", .int s.height)] =
      some (.int s.width) := by
    simp [Entries.lookup]
  have hheight : Entries.lookup "height" [("width", .int s.width), ("height", .int s.height)] =
      some (.int s.height) := by
    simp [Entries.lookup]
  rw [Size.write, Size.read, required_of_lookup (a := s.width) hwidth rfl,
    required_of_lookup (a := s.height) hheight rfl]
  rfl

/-- Whether entries hold what settings are written as, under either spelling of a key. -/
def Entries.Hold (es : Entries) (p : Params) : Prop :=
  ∀ f, f ≠ .layers → (es.spelled? f.key f.spelled).map (·.2) = p.get f

/-- Whether settings are in the form that reading gives: the rotation is within one turn, and a
layer's settings name no image. -/
structure Params.Valid (inLayer : Bool) (p : Params) : Prop where
  rotation : ∀ n ∈ p.rotation, normalTurn? n = some n
  image : inLayer = true → p.imagePath = none ∧ p.originalDimensions = none

theorem Convert.rotation_int {n : Int} (h : normalTurn? n = some n) :
    Convert.rotation (.int n) = pure n := by
  show Convert.rotation.fold (some n) = pure n
  rw [Convert.rotation.fold, Option.bind_some, h]

/-- Settings are read back from entries that hold them. -/
theorem Params.read_eq {inLayer : Bool} {es : Entries} {p : Params} (hp : p.Valid inLayer)
    (h : es.Hold p) : Params.read inLayer es = pure p := by
  have hrotation : optionalField es .rotation Convert.rotation = pure p.rotation :=
    optionalField_eq (h .rotation (by decide))
      fun n hn => ⟨by simp, Convert.rotation_int (hp.rotation n hn)⟩
  -- The two fields that only the root has are left for the end.
  have hfields : Params.read inLayer es = (do
      let imagePath ← if inLayer then pure none else optionalField es .imagePath Convert.text
      let originalDimensions ←
        if inLayer then pure none else optionalField es .originalDimensions Size.read
      return { p with imagePath, originalDimensions }) := by
    unfold Params.read
    simp only [hrotation, pure_bind,
      optionalField_int (h .width (by decide)), optionalField_int (h .height (by decide)),
      optionalField_truth (h .widthFull (by decide)),
      optionalField_int (h .widthFullOffset (by decide)),
      optionalField_truth (h .heightFull (by decide)),
      optionalField_int (h .heightFullOffset (by decide)),
      optionalField_truth (h .stretch (by decide)), optionalField_truth (h .fitIn (by decide)),
      optionalField_truth (h .smart (by decide)), optionalField_text (h .hAlign (by decide)),
      optionalField_text (h .vAlign (by decide)), optionalField_double (h .brightness (by decide)),
      optionalField_double (h .contrast (by decide)),
      optionalField_double (h .saturation (by decide)), optionalField_double (h .hue (by decide)),
      optionalField_double (h .blur (by decide)), optionalField_double (h .sharpen (by decide)),
      optionalField_truth (h .grayscale (by decide)),
      optionalField_int (h .roundCornerRadius (by decide)),
      optionalField_truth (h .hFlip (by decide)), optionalField_truth (h .vFlip (by decide)),
      optionalField_text (h .format (by decide)), optionalField_int (h .quality (by decide)),
      optionalField_int (h .maxBytes (by decide)), optionalField_truth (h .stripIcc (by decide)),
      optionalField_truth (h .stripExif (by decide)),
      optionalField_truth (h .stripMetadata (by decide)),
      optionalField_int (h .cropLeft (by decide)), optionalField_int (h .cropTop (by decide)),
      optionalField_int (h .cropWidth (by decide)), optionalField_int (h .cropHeight (by decide)),
      optionalField_truth (h .visualCropEnabled (by decide)),
      optionalField_text (h .fillColor (by decide)), optionalField_int (h .paddingTop (by decide)),
      optionalField_int (h .paddingRight (by decide)),
      optionalField_int (h .paddingBottom (by decide)),
      optionalField_int (h .paddingLeft (by decide)),
      optionalField_double (h .proportion (by decide))]
  rw [hfields]
  cases inLayer with
  | false =>
      have hsize : optionalField es .originalDimensions Size.read = pure p.originalDimensions :=
        optionalField_eq (h .originalDimensions (by decide))
          fun s _ => ⟨by simp [Size.write], s.read_write⟩
      simp only [Bool.false_eq_true, if_false, optionalField_text (h .imagePath (by decide)),
        hsize, pure_bind]
  | true =>
      obtain ⟨hpath, hsize⟩ := hp.image rfl
      simp only [if_true, pure_bind, ← hpath, ← hsize]

/-! ## Layers without their settings -/

/-- Whether the properties of a layer are in the form that reading gives. -/
structure LayerProps.Valid (p : LayerProps) : Prop where
  x : p.x.Valid
  y : p.y.Valid
  alpha : 0 ≤ p.alpha ∧ p.alpha ≤ 100

/-- Whether the numbers of a layer have no more digits than are read. -/
structure LayerProps.Short (p : LayerProps) : Prop where
  size : p.originalDimensions.write.Proper
  x : p.x.Short
  y : p.y.Short

/-- Whether no offset of a layer has too many digits for a word. -/
def LayerProps.Printable (p : LayerProps) : Prop :=
  p.x.isPrintable = true ∧ p.y.isPrintable = true

theorem LayerProps.Short.printable {p : LayerProps} (h : p.Short) : p.Printable :=
  ⟨h.x.isPrintable, h.y.isPrintable⟩

theorem Position.check_write {p : Position} (hvalid : p.Valid) (hoffset : p.isPrintable = true) :
    Position.check p.write = pure p := by
  rw [Position.check, Position.read_write hvalid hoffset]

theorem Convert.intBetween_int {low high n : Int} (h : low ≤ n ∧ n ≤ high) :
    Convert.intBetween low high (.int n) = pure n := by
  show (if n < low then Check.note .belowRange n
    else if high < n then Check.note .aboveRange n else pure n) = pure n
  rw [if_neg (by omega), if_neg (by omega)]

theorem Blend.read_name (b : Blend) : Blend.read (.text b.name) = pure b := by
  rw [Blend.read, Blend.ofName?_name]

theorem fieldOr_of_entry {α : Type} {es : Entries} {v : Value} {first second : String} {default : α}
    {c : Value → Check α} (h : es.lookup first = some v) :
    fieldOr es first second default c = Check.within (.key first) (c v) := by
  rw [fieldOr, Entries.spelled?_of_lookup h]

/-- The properties of a layer are found in what it is written as, whatever comes behind them; only
    the positions and the transparency can be refused. -/
theorem LayerProps.read_append (p : LayerProps) (rest : Entries) :
    LayerProps.read (p.write ++ rest) = (do
      let x ← Check.within (.key "x") (Position.check p.x.write)
      let y ← Check.within (.key "y") (Position.check p.y.write)
      let alpha ← Check.within (.key "alpha") (Convert.intBetween 0 100 (.int p.alpha))
      return { p with x, y, alpha }) := by
  have hid : (p.write ++ rest).lookup "id" = some (.text p.id) := by
    simp [LayerProps.write, Entries.lookup]
  have hpath : requiredField (p.write ++ rest) "imagePath" "image_path" Convert.text =
      pure p.imagePath :=
    requiredField_of_lookup (by simp [LayerProps.write, Entries.lookup]; rfl) rfl
  have hsize : requiredField (p.write ++ rest) "originalDimensions" "original_dimensions"
      Size.read = pure p.originalDimensions :=
    requiredField_of_lookup (by simp [LayerProps.write, Entries.lookup])
      (Size.read_write _)
  have hx : fieldOr (p.write ++ rest) "x" "x" .centered Position.check =
      Check.within (.key "x") (Position.check p.x.write) :=
    fieldOr_of_entry (by simp [LayerProps.write, Entries.lookup])
  have hy : fieldOr (p.write ++ rest) "y" "y" .centered Position.check =
      Check.within (.key "y") (Position.check p.y.write) :=
    fieldOr_of_entry (by simp [LayerProps.write, Entries.lookup])
  have halpha : fieldOr (p.write ++ rest) "alpha" "alpha" 0 (Convert.intBetween 0 100) =
      Check.within (.key "alpha") (Convert.intBetween 0 100 (.int p.alpha)) :=
    fieldOr_of_entry (by simp [LayerProps.write, Entries.lookup])
  have hblend : fieldOr (p.write ++ rest) "blendMode" "blend_mode" .normal Blend.read =
      pure p.blend :=
    fieldOr_of_lookup (by simp [LayerProps.write, Entries.lookup]) (Blend.read_name _)
  have hvisible : fieldOr (p.write ++ rest) "visible" "visible" true Convert.truth =
      pure p.visible :=
    fieldOr_of_lookup (by simp [LayerProps.write, Entries.lookup]; rfl) rfl
  have hname : fieldOr (p.write ++ rest) "name" "name" "Layer" Convert.text = pure p.name :=
    fieldOr_of_lookup (by simp [LayerProps.write, Entries.lookup]; rfl) rfl
  unfold LayerProps.read
  rw [hid]
  have hidText : Check.within (.key "id") (Convert.text (.text p.id)) = pure p.id :=
    Check.within_pure
  simp only [hidText, hpath, hsize, hx, hy, halpha, hblend, hvisible, hname, pure_bind]

/-- The properties of a layer are read back, whatever comes behind them. -/
theorem LayerProps.read_write {p : LayerProps} (hvalid : p.Valid) (hprintable : p.Printable)
    (rest : Entries) : LayerProps.read (p.write ++ rest) = pure p := by
  rw [LayerProps.read_append, Position.check_write hvalid.x hprintable.1,
    Position.check_write hvalid.y hprintable.2, Convert.intBetween_int hvalid.alpha]
  simp only [Check.within_pure, pure_bind]

/-! ## Entries made from fields -/

section

variable {name : Field → String}

theorem Field.ofKey?_name (hname : ∀ f : Field, name f = f.key ∨ name f = f.spelled) (f : Field) :
    Field.ofKey? (name f) = some f := by
  rcases hname f with h | h
  · rw [h, Field.ofKey?_key]
  · rw [h, Field.ofKey?_spelled]

/-- Entries that use a spelling of each key hold what they were made from. -/
theorem Entries.spelled?_filterMap (hname : ∀ f : Field, name f = f.key ∨ name f = f.spelled)
    (get : Field → Option Value) (f : Field) :
    (Entries.spelled? f.key f.spelled (Field.all.filterMap fun g => (get g).map (name g, ·))).map
      (·.2) = get f := by
  obtain ⟨es, hes⟩ : ∃ es : Entries,
      (Field.all.filterMap fun g => (get g).map (name g, ·)) = es := ⟨_, rfl⟩
  have hinj : ∀ f g, name f = name g → f = g := by
    intro f g h
    have hf := Field.ofKey?_name hname f
    rw [h, Field.ofKey?_name hname g] at hf
    exact (Option.some.inj hf).symm
  have hself : Entries.lookup (name f) es = get f := by
    rw [← hes, lookup_filterMap hinj, if_pos f.mem_all]
  have hother : ∀ key, Field.ofKey? key = some f → name f ≠ key →
      Entries.lookup key es = none := by
    intro key hkey hne
    rw [← hes]
    refine Entries.lookup_filterMap_of_ne (fun g hg => ?_) get Field.all
    have hg' := Field.ofKey?_name hname g
    rw [hg, hkey] at hg'
    cases hg'
    exact hne hg
  rw [hes]
  unfold Entries.spelled?
  -- The field is under the one of its spellings that is used, and the other one is no key at all.
  by_cases hkey : name f = f.key
  · rw [← hkey, hself]
    cases hget : get f with
    | some v => rfl
    | none =>
        by_cases hspelled : name f = f.spelled
        · rw [← hspelled, hself, hget]
          rfl
        · rw [hother _ f.ofKey?_spelled hspelled]
          rfl
  · have hspelled : name f = f.spelled := (hname f).resolve_left hkey
    rw [hother _ f.ofKey?_key hkey, ← hspelled, hself]
    cases get f <;> rfl

theorem checkLayersIn_eq (es : Entries) :
    checkLayersIn es = match es.lookup "layers" with
      | none => pure none
      | some v => Check.within (.key "layers") (checkLayers v) := by
  induction es with
  | nil => rw [checkLayersIn]; rfl
  | cons e es ih =>
      obtain ⟨k, v⟩ := e
      rw [checkLayersIn, Entries.lookup]
      split
      · rfl
      · exact ih

theorem checkTransformsIn_eq (es : Entries) :
    checkTransformsIn es = match es.lookup "transforms" with
      | none => pure none
      | some v => Check.within (.key "transforms") (checkTransforms v) := by
  induction es with
  | nil => rw [checkTransformsIn]; rfl
  | cons e es ih =>
      obtain ⟨k, v⟩ := e
      rw [checkTransformsIn, Entries.lookup]
      split
      · rfl
      · exact ih

/-- Entries made from fields hold the settings and the list of layers that the fields are of. -/
theorem Entries.hold_filterMap (hname : ∀ f : Field, name f = f.key ∨ name f = f.spelled)
    {get : Field → Option Value} {p : Params} {layers : Option (List Layer)}
    (hget : ∀ f, f ≠ .layers → get f = p.get f)
    (hlayers : get .layers = layers.map fun ls => .list (writeLayers ls)) :
    Entries.Hold (Field.all.filterMap fun f => (get f).map (name f, ·)) p ∧
      Entries.lookup "layers" (Field.all.filterMap fun f => (get f).map (name f, ·)) =
        layers.map fun ls => .list (writeLayers ls) := by
  obtain ⟨es, hes⟩ : ∃ es : Entries,
      (Field.all.filterMap fun g => (get g).map (name g, ·)) = es := ⟨_, rfl⟩
  have hspelled : ∀ f : Field, (es.spelled? f.key f.spelled).map (·.2) = get f := fun f =>
    hes ▸ Entries.spelled?_filterMap hname get f
  rw [hes]
  refine ⟨fun f hf => (hspelled f).trans (hget f hf), ?_⟩
  have h := (hspelled .layers).trans hlayers
  unfold Entries.spelled? at h
  rw [show Field.layers.key = "layers" from rfl, show Field.layers.spelled = "layers" from rfl] at h
  cases hl : es.lookup "layers" with
  | none => rw [hl] at h; exact h
  | some v => rw [hl] at h; exact h

theorem Entries.edgeToExtent_of_lookup_none {far near extent : String} {es : Entries}
    (h : es.lookup far = none) : es.edgeToExtent far near extent = .ok es := by
  rw [Entries.edgeToExtent, h]

/-- Entries made from fields are of the present form. -/
theorem Entries.migrate_filterMap (get : Field → Option Value) :
    Entries.migrate (Field.all.filterMap fun f => (get f).map (f.key, ·)) =
      .ok (Field.all.filterMap fun f => (get f).map (f.key, ·)) := by
  have hnone : ∀ key, (∀ f : Field, f.key ≠ key) →
      Entries.lookup key (Field.all.filterMap fun f => (get f).map (f.key, ·)) = none :=
    fun key hkey => Entries.lookup_filterMap_of_ne hkey _ _
  have hright := hnone "cropRight" (by intro f; cases f <;> decide)
  have hbottom := hnone "cropBottom" (by intro f; cases f <;> decide)
  rw [Entries.migrate, edgeToExtent_of_lookup_none hright]
  exact edgeToExtent_of_lookup_none hbottom

/-- Layers that are found as they are written are read back, if each of them is. -/
theorem checkLayersIn_of_lookup {es : Entries} {layers : Option (List Layer)}
    (hlookup : es.lookup "layers" = layers.map fun ls => .list (writeLayers ls))
    (hread : ∀ ls ∈ layers, checkItems 0 (writeLayers ls) = pure ls) :
    checkLayersIn es = pure layers := by
  rw [checkLayersIn_eq, hlookup]
  cases layers with
  | none => rfl
  | some ls =>
      show Check.within _ (checkLayers (.list (writeLayers ls))) = _
      rw [checkLayers, hread ls rfl]
      exact Check.within_pure

/-- A state is read back from entries made from its fields, if its layers are read back. -/
theorem State.check_filterMap (hname : ∀ f : Field, name f = f.key ∨ name f = f.spelled)
    {get : Field → Option Value} {inLayer : Bool} {p : Params} {layers : Option (List Layer)}
    (hp : p.Valid inLayer) (hget : ∀ f, f ≠ .layers → get f = p.get f)
    (hlayers : get .layers = layers.map fun ls => .list (writeLayers ls))
    (hread : ∀ ls ∈ layers, checkItems 0 (writeLayers ls) = pure ls) :
    State.check inLayer (.object (Field.all.filterMap fun f => (get f).map (name f, ·))) =
      pure ⟨p, layers⟩ := by
  obtain ⟨hhold, hlookup⟩ := Entries.hold_filterMap hname hget hlayers
  rw [State.check, Params.read_eq hp hhold, checkLayersIn_of_lookup hlookup hread]
  rfl

end

/-! ## The tree -/

mutual

/-- Whether the settings all over a tree have a property, which may be another one in layers, and
so have the layers. -/
def State.Holds (P : Bool → Params → Prop) (Q : LayerProps → Prop) (inLayer : Bool) : State → Prop
  | ⟨p, none⟩ => P inLayer p
  | ⟨p, some ls⟩ => P inLayer p ∧ layersHold P Q ls

/-- Whether the properties hold in every layer of a list. -/
def layersHold (P : Bool → Params → Prop) (Q : LayerProps → Prop) : List Layer → Prop
  | [] => True
  | l :: ls => l.Holds P Q ∧ layersHold P Q ls

/-- Whether the properties hold in a layer and in its settings. -/
def Layer.Holds (P : Bool → Params → Prop) (Q : LayerProps → Prop) : Layer → Prop
  | ⟨p, none⟩ => Q p
  | ⟨p, some s⟩ => Q p ∧ s.Holds P Q true

end

/-- Whether a tree is in the form that reading gives. -/
def State.Valid (s : State) : Prop := s.Holds Params.Valid LayerProps.Valid false

/-- Whether the numbers of settings have no more digits than are read. -/
def Params.Short (p : Params) : Prop := ∀ f v, p.get f = some v → v.Proper

/-- Whether no number of a tree has more digits than are read. -/
def State.Short (s : State) : Prop := s.Holds (fun _ => Params.Short) LayerProps.Short false

theorem State.Holds.params {P : Bool → Params → Prop} {Q : LayerProps → Prop} {inLayer : Bool}
    {s : State} (h : s.Holds P Q inLayer) : P inLayer s.params := by
  obtain ⟨p, layers⟩ := s
  cases layers with
  | none => exact h
  | some ls => exact h.1

theorem State.Holds.layers {P : Bool → Params → Prop} {Q : LayerProps → Prop} {inLayer : Bool}
    {s : State} (h : s.Holds P Q inLayer) {ls : List Layer} (hls : ls ∈ s.layers) :
    layersHold P Q ls := by
  obtain ⟨p, layers⟩ := s
  cases hls
  exact h.2

theorem layersHold.of_mem {P : Bool → Params → Prop} {Q : LayerProps → Prop} {ls : List Layer}
    (h : layersHold P Q ls) {l : Layer} (hl : l ∈ ls) : l.Holds P Q := by
  induction ls with
  | nil => cases hl
  | cons k ls ih =>
      rcases List.mem_cons.mp hl with rfl | hl
      · exact h.1
      · exact ih h.2 hl

/-- The fields of a state that are no layers are its settings. -/
theorem State.get_eq_params {s : State} {f : Field} (h : f ≠ .layers) :
    s.get f = s.params.get f := by
  cases f <;> first | rfl | exact absurd rfl h

/-- A state is read back from what it is written as, if its layers are. -/
theorem State.check_write_of_layers {s : State} {inLayer : Bool} (hp : s.params.Valid inLayer)
    (hread : ∀ ls ∈ s.layers, checkItems 0 (writeLayers ls) = pure ls) :
    State.check inLayer s.write = pure s := by
  obtain ⟨p, layers⟩ := s
  rw [State.write_eq]
  exact State.check_filterMap (fun _ => .inl rfl) hp (fun f hf => State.get_eq_params hf) rfl hread

section

-- Only the offsets in layers matter here: one with too many digits is refused.
variable {R : Bool → Params → Prop} {Q : LayerProps → Prop}

mutual

/-- A state is read back from what it is written as. -/
theorem State.check_write (hQ : ∀ p, Q p → p.Printable) (s : State) (inLayer : Bool)
    (hvalid : s.Holds Params.Valid LayerProps.Valid inLayer)
    (hoffsets : s.Holds R Q inLayer) : State.check inLayer s.write = pure s := by
  obtain ⟨p, layers⟩ := s
  cases layers with
  | none => exact State.check_write_of_layers hvalid.params fun _ h => by cases h
  | some ls =>
      have hitems := checkItems_write hQ ls 0 hvalid.2 hoffsets.2
      refine State.check_write_of_layers hvalid.params fun _ h => ?_
      cases h
      exact hitems

/-- Layers are read back in order. -/
theorem checkItems_write (hQ : ∀ p, Q p → p.Printable) (ls : List Layer) (n : ℕ)
    (hvalid : layersHold Params.Valid LayerProps.Valid ls) (hoffsets : layersHold R Q ls) :
    checkItems n (writeLayers ls) = pure ls := by
  cases ls with
  | nil => rw [writeLayers, checkItems]
  | cons l ls =>
      rw [writeLayers, checkItems, Layer.check_write hQ l hvalid.1 hoffsets.1,
        checkItems_write hQ ls (n + 1) hvalid.2 hoffsets.2, Check.within_pure, pure_bind, pure_bind]

/-- A layer is read back from what it is written as. -/
theorem Layer.check_write (hQ : ∀ p, Q p → p.Printable) (l : Layer)
    (hvalid : l.Holds Params.Valid LayerProps.Valid) (hoffsets : l.Holds R Q) :
    Layer.check l.write = pure l := by
  obtain ⟨p, transforms⟩ := l
  cases transforms with
  | none =>
      have hnone : Entries.lookup "transforms" p.write = none := by
        simp [LayerProps.write, Entries.lookup]
      have hprops := LayerProps.read_write hvalid (hQ p hoffsets) []
      rw [List.append_nil] at hprops
      rw [Layer.write, Layer.check, hprops, checkTransformsIn_eq, hnone]
      rfl
  | some s =>
      have hsome : Entries.lookup "transforms" (p.write ++ [("transforms", s.write)]) =
          some s.write := by
        simp [LayerProps.write, Entries.lookup]
      have hstate := State.check_write hQ s true hvalid.2 hoffsets.2
      rw [Layer.write, Layer.check, LayerProps.read_write hvalid.1 (hQ p hoffsets.1),
        checkTransformsIn_eq, hsome]
      rw [State.write_eq] at hstate ⊢
      show (pure p >>= fun props => Check.within _ (checkTransforms _) >>= _) = _
      rw [checkTransforms, hstate]
      simp only [map_pure, Check.within_pure, pure_bind]

end

end

/-! ## What is written is proper -/

/-- A setting is written as an atom or as a size. -/
theorem Params.get_cases {p : Params} {f : Field} {v : Value} (h : p.get f = some v) :
    (∃ n, v = .int n) ∨ (∃ x, v = .float x) ∨ (∃ b, v = .bool b) ∨ (∃ s, v = .text s) ∨
      ∃ s : Size, v = s.write := by
  cases f with
  | layers => cases h
  | originalDimensions =>
      obtain ⟨s, -, rfl⟩ := Option.map_eq_some_iff.mp h
      exact .inr (.inr (.inr (.inr ⟨s, rfl⟩)))
  | imagePath | hAlign | vAlign | format | fillColor =>
      obtain ⟨s, -, rfl⟩ := Option.map_eq_some_iff.mp h
      exact .inr (.inr (.inr (.inl ⟨s, rfl⟩)))
  | widthFull | heightFull | stretch | fitIn | smart | grayscale | hFlip | vFlip | stripIcc
  | stripExif | stripMetadata | visualCropEnabled =>
      obtain ⟨b, -, rfl⟩ := Option.map_eq_some_iff.mp h
      exact .inr (.inr (.inl ⟨b, rfl⟩))
  | brightness | contrast | saturation | hue | blur | sharpen | proportion =>
      obtain ⟨x, -, rfl⟩ := Option.map_eq_some_iff.mp h
      exact .inr (.inl ⟨x, rfl⟩)
  | width | widthFullOffset | height | heightFullOffset | roundCornerRadius | rotation | quality
  | maxBytes | cropLeft | cropTop | cropWidth | cropHeight | paddingTop | paddingRight
  | paddingBottom | paddingLeft =>
      obtain ⟨n, -, rfl⟩ := Option.map_eq_some_iff.mp h
      exact .inl ⟨n, rfl⟩

/-- Entries made from fields hold each key once. -/
theorem Entries.nodup_keys_filterMap {name : Field → String}
    (hinj : ∀ f g, name f = name g → f = g) (get : Field → Option Value) :
    (Entries.keys (Field.all.filterMap fun f => (get f).map (name f, ·))).Nodup := by
  have hkeys : ∀ fs : List Field, Entries.keys (fs.filterMap fun f => (get f).map (name f, ·)) =
      (fs.filter fun f => (get f).isSome).map name := by
    intro fs
    induction fs with
    | nil => rfl
    | cons f fs ih =>
        have ih : List.map (·.1) (fs.filterMap fun f => (get f).map (name f, ·)) = _ := ih
        cases hget : get f with
        | none => simp [Entries.keys, hget, ih]
        | some v => simp [Entries.keys, hget, ih]
  rw [hkeys]
  exact List.Nodup.map_on (fun f _ g _ h => hinj f g h)
    (List.Nodup.filter _ (by decide))

/-- An object made from fields is proper if the values of the fields are. -/
theorem Value.proper_filterMap {name : Field → String}
    (hinj : ∀ f g, name f = name g → f = g) {get : Field → Option Value}
    (h : ∀ f v, get f = some v → v.Proper) :
    (Value.object (Field.all.filterMap fun f => (get f).map (name f, ·))).Proper := by
  refine ⟨Entries.nodup_keys_filterMap hinj get, Value.properEntries_iff.mpr fun e he => ?_⟩
  obtain ⟨f, -, hf⟩ := List.mem_filterMap.mp he
  obtain ⟨v, hv, rfl⟩ := Option.map_eq_some_iff.mp hf
  exact h f v hv

theorem Position.proper_write {p : Position} (hvalid : p.Valid) (hshort : p.Short) :
    p.write.Proper := by
  cases p with
  | absolute px =>
      rw [Position.write, hvalid]
      cases px with
      | int n => exact hshort
      | float x => trivial
  | aligned side outside => cases outside <;> trivial
  | centered => trivial

theorem LayerProps.properEntries_write {p : LayerProps} (hvalid : p.Valid) (hshort : p.Short) :
    Value.ProperEntries p.write := by
  have halpha : (Value.int p.alpha).Proper := by
    obtain ⟨hlow, hhigh⟩ := hvalid.alpha
    obtain ⟨n, hn⟩ : ∃ n : ℕ, p.alpha = n := ⟨p.alpha.toNat, by omega⟩
    rw [hn]
    have hall : ∀ n ≤ 100, (Number.natText n).length ≤ Number.digitLimit := by decide
    exact hall n (by omega)
  exact ⟨trivial, trivial, hshort.size, Position.proper_write hvalid.x hshort.x,
    Position.proper_write hvalid.y hshort.y, halpha, trivial, trivial, trivial, trivial⟩

theorem LayerProps.keys_write (p : LayerProps) :
    Entries.keys p.write = ["id", "imagePath", "originalDimensions", "x", "y", "alpha",
      "blendMode", "visible", "name"] := rfl

/-- A state is written as a proper value if its layers are. -/
theorem State.proper_of_layers {s : State} (hparams : s.params.Short)
    (hlayers : ∀ ls ∈ s.layers, Value.ProperItems (writeLayers ls)) : s.write.Proper := by
  rw [State.write_eq]
  refine Value.proper_filterMap Field.key_inj fun f v hv => ?_
  by_cases hf : f = .layers
  · subst hf
    obtain ⟨ls, hls, rfl⟩ := Option.map_eq_some_iff.mp hv
    exact hlayers ls hls
  · exact hparams f v (State.get_eq_params hf ▸ hv)

mutual

theorem State.proper_write (s : State) (inLayer : Bool)
    (hvalid : s.Holds Params.Valid LayerProps.Valid inLayer)
    (hshort : s.Holds (fun _ => Params.Short) LayerProps.Short inLayer) : s.write.Proper := by
  obtain ⟨p, layers⟩ := s
  cases layers with
  | none => exact State.proper_of_layers hshort.params fun _ h => by cases h
  | some ls =>
      have hlist := properItems_writeLayers ls hvalid.2 hshort.2
      refine State.proper_of_layers hshort.params fun _ h => ?_
      cases h
      exact hlist

theorem properItems_writeLayers (ls : List Layer)
    (hvalid : layersHold Params.Valid LayerProps.Valid ls)
    (hshort : layersHold (fun _ => Params.Short) LayerProps.Short ls) :
    Value.ProperItems (writeLayers ls) := by
  cases ls with
  | nil => trivial
  | cons l ls =>
      exact ⟨Layer.proper_write l hvalid.1 hshort.1,
        properItems_writeLayers ls hvalid.2 hshort.2⟩

theorem Layer.proper_write (l : Layer) (hvalid : l.Holds Params.Valid LayerProps.Valid)
    (hshort : l.Holds (fun _ => Params.Short) LayerProps.Short) : l.write.Proper := by
  obtain ⟨p, transforms⟩ := l
  cases transforms with
  | none =>
      refine ⟨?_, LayerProps.properEntries_write hvalid hshort⟩
      rw [LayerProps.keys_write]
      decide
  | some s =>
      have hstate := State.proper_write s true hvalid.2 hshort.2
      refine ⟨?_, Value.properEntries_iff.mpr fun e he => ?_⟩
      · rw [Entries.keys, List.map_append]
        exact (by decide : (["id", "imagePath", "originalDimensions", "x", "y", "alpha",
          "blendMode", "visible", "name"] ++ ["transforms"]).Nodup)
      · rcases List.mem_append.mp he with he | he
        · exact Value.properEntries_iff.mp
            (LayerProps.properEntries_write hvalid.1 hshort.1) e he
        · rw [List.mem_singleton.mp he]
          exact hstate

end

end Retouch
