/-
  States written as document values.

  Unset fields are left out; fields stand in their fixed order, the layers last. `Params.get` is
  the written value of one field, and a state is written as the fields that have one. Main fact:
  the written entries hold exactly those values (`lookup_entries`).
-/
import Retouch.State.Basic

namespace Retouch

/-- The written value of a setting, if it is set. -/
def Params.get (p : Params) : Field → Option Value
  | .imagePath => p.imagePath.map .text
  | .originalDimensions => p.originalDimensions.map Size.write
  | .width => p.width.map .int
  | .height => p.height.map .int
  | .widthFull => p.widthFull.map .bool
  | .widthFullOffset => p.widthFullOffset.map .int
  | .heightFull => p.heightFull.map .bool
  | .heightFullOffset => p.heightFullOffset.map .int
  | .stretch => p.stretch.map .bool
  | .fitIn => p.fitIn.map .bool
  | .smart => p.smart.map .bool
  | .hAlign => p.hAlign.map .text
  | .vAlign => p.vAlign.map .text
  | .brightness => p.brightness.map .float
  | .contrast => p.contrast.map .float
  | .saturation => p.saturation.map .float
  | .hue => p.hue.map .float
  | .blur => p.blur.map .float
  | .sharpen => p.sharpen.map .float
  | .grayscale => p.grayscale.map .bool
  | .roundCornerRadius => p.roundCornerRadius.map .int
  | .hFlip => p.hFlip.map .bool
  | .vFlip => p.vFlip.map .bool
  | .rotation => p.rotation.map .int
  | .format => p.format.map .text
  | .quality => p.quality.map .int
  | .maxBytes => p.maxBytes.map .int
  | .stripIcc => p.stripIcc.map .bool
  | .stripExif => p.stripExif.map .bool
  | .stripMetadata => p.stripMetadata.map .bool
  | .cropLeft => p.cropLeft.map .int
  | .cropTop => p.cropTop.map .int
  | .cropWidth => p.cropWidth.map .int
  | .cropHeight => p.cropHeight.map .int
  | .visualCropEnabled => p.visualCropEnabled.map .bool
  | .fillColor => p.fillColor.map .text
  | .paddingTop => p.paddingTop.map .int
  | .paddingRight => p.paddingRight.map .int
  | .paddingBottom => p.paddingBottom.map .int
  | .paddingLeft => p.paddingLeft.map .int
  | .proportion => p.proportion.map .float
  | .layers => none

/-- The entries of a layer apart from its settings. -/
def LayerProps.write (p : LayerProps) : Entries :=
  [("id", .text p.id), ("imagePath", .text p.imagePath),
    ("originalDimensions", p.originalDimensions.write), ("x", p.x.write), ("y", p.y.write),
    ("alpha", .int p.alpha), ("blendMode", .text p.blend.name), ("visible", .bool p.visible),
    ("name", .text p.name)]

/-- The entries of settings. -/
def Params.write (p : Params) : Entries :=
  Field.all.filterMap fun f => (p.get f).map (f.key, ·)

mutual

/-- A state as an object. -/
def State.write (s : State) : Value :=
  match s with
  | ⟨p, none⟩ => .object p.write
  | ⟨p, some layers⟩ => .object (p.write ++ [("layers", .list (writeLayers layers))])

/-- Layers as objects. -/
def writeLayers : List Layer → List Value
  | [] => []
  | l :: ls => l.write :: writeLayers ls

/-- A layer as an object. -/
def Layer.write (l : Layer) : Value :=
  match l with
  | ⟨p, none⟩ => .object p.write
  | ⟨p, some s⟩ => .object (p.write ++ [("transforms", s.write)])

end

mutual

/-- Whether no offset in a tree has too many digits for a word. -/
def State.hasPrintableOffsets : State → Bool
  | ⟨_, none⟩ => true
  | ⟨_, some layers⟩ => havePrintableOffsets layers

/-- Whether that holds of layers. -/
def havePrintableOffsets : List Layer → Bool
  | [] => true
  | l :: ls => l.hasPrintableOffsets && havePrintableOffsets ls

/-- Whether that holds of a layer and of those on top of it. -/
def Layer.hasPrintableOffsets : Layer → Bool
  | ⟨p, none⟩ => p.x.isPrintable && p.y.isPrintable
  | ⟨p, some s⟩ => p.x.isPrintable && p.y.isPrintable && s.hasPrintableOffsets

end

namespace State

/-- The written value of a field, if it is set. -/
def get (s : State) : Field → Option Value
  | .layers => s.layers.map fun ls => .list (writeLayers ls)
  | f => s.params.get f

/-- The entries of a state, each under the key that `name` gives its field. -/
def entries (name : Field → String) (s : State) : Entries :=
  Field.all.filterMap fun f => (s.get f).map (name f, ·)

/-- The fields that are set, in order. -/
def setFields (s : State) : List Field :=
  Field.all.filter fun f => (s.get f).isSome

end State

/-! ## Laws -/

theorem writeLayers_eq_map (ls : List Layer) : writeLayers ls = ls.map Layer.write := by
  induction ls with
  | nil => rfl
  | cons l ls ih => simp [writeLayers, ih]

/-- Looking a key up among entries made from fields. -/
theorem lookup_filterMap {name : Field → String} (hname : ∀ f g, name f = name g → f = g)
    (get : Field → Option Value) (f : Field) (fs : List Field) :
    Entries.lookup (name f) (fs.filterMap fun g => (get g).map (name g, ·)) =
      if f ∈ fs then get f else none := by
  induction fs with
  | nil => simp [Entries.lookup]
  | cons g gs ih =>
    cases hget : get g with
    | none =>
      by_cases hg : f = g
      · subst hg
        by_cases hmem : f ∈ gs <;> simp [hget, ih, hmem]
      · simp [hget, ih, hg]
    | some v =>
      by_cases hg : f = g
      · subst hg
        simp [hget, Entries.lookup]
      · have hne : name g ≠ name f := fun he => hg (hname g f he).symm
        simp [hget, Entries.lookup, hne, ih, hg]

theorem Field.key_inj (f g : Field) (h : f.key = g.key) : f = g := by
  have hf := Field.ofKey?_key f
  rw [h, Field.ofKey?_key g] at hf
  exact (Option.some.inj hf).symm

theorem Field.spelled_inj (f g : Field) (h : f.spelled = g.spelled) : f = g := by
  have hf := Field.ofKey?_spelled f
  rw [h, Field.ofKey?_spelled g] at hf
  exact (Option.some.inj hf).symm

theorem Field.mem_all (f : Field) : f ∈ Field.all := by
  cases f <;> decide

/-- The entries of a state hold the written value of every field. -/
theorem State.lookup_entries {name : Field → String} (hname : ∀ f g, name f = name g → f = g)
    (s : State) (f : Field) : Entries.lookup (name f) (s.entries name) = s.get f := by
  rw [State.entries, lookup_filterMap hname, if_pos f.mem_all]

/-- A state is written as the entries of its fields. -/
theorem State.write_eq (s : State) : s.write = .object (s.entries Field.key) := by
  have hsplit : Field.all = Field.all.dropLast ++ [.layers] := by decide
  have hparams : ∀ p : Params, p.write =
      Field.all.dropLast.filterMap fun f => (p.get f).map (f.key, ·) := by
    intro p
    rw [Params.write, hsplit, List.filterMap_append]
    simp [Params.get, Field.all]
  have hmiddle : Field.all.dropLast.filterMap (fun f => (s.get f).map (f.key, ·)) =
      s.params.write := by
    rw [hparams]
    rfl
  rw [State.entries, hsplit, List.filterMap_append, hmiddle]
  obtain ⟨p, layers⟩ := s
  cases layers with
  | none => simp [State.write, State.get]
  | some ls => simp [State.write, State.get, Field.key]

end Retouch
