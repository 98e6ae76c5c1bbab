/-
  Trees with a few values changed.

  A change writes a tree out, puts other values among its entries, and reads the result.  What was
  not changed is read back as it was: settings get another wanted size (`State.merged_extents`) and
  a layer stands elsewhere (`Layer.merged_positions`), and nothing else becomes of them.  That needs
  a tree in the form that reading gives, without numbers that are too long to be read.
-/
import Retouch.Proofs.State.ReadBack

namespace Retouch

/-! ## Settings -/

/-- Settings that the entries hold after a change are what the change gives, if the change is not
    about layers. -/
theorem State.merged_eq {R : Bool → Params → Prop} {s : State} {q : Params} {cs : Changes}
    {inLayer : Bool} (hvalid : s.Holds Params.Valid LayerProps.Valid inLayer)
    (hshort : s.Holds R LayerProps.Short inLayer)
    (hcs : ∀ c ∈ cs, c.1 ≠ .layers) (hq : q.Valid false)
    (hhold : Entries.Hold (cs.apply (s.entries Field.spelled)) q) :
    s.merged cs = pure ⟨q, s.layers⟩ := by
  have hlayers := checkLayersIn_of_lookup (lookup_layers_of_changes hcs) fun ls hls =>
    checkItems_write (fun _ => LayerProps.Short.printable) ls 0 (hvalid.layers hls)
      (hshort.layers hls)
  rw [merged, State.check, Params.read_eq hq hhold, hlayers]
  rfl

/-- The settings with a wanted size. -/
def Params.withExtents (p : Params) (s : Size) : Params :=
  { p with width := some s.width, height := some s.height }

/-- The changes that give settings a wanted size. -/
def extentChanges (size : Size) : Changes :=
  [(.width, .int size.width), (.height, .int size.height)]

/-- With a wanted size put among them, the entries of a state hold its settings with that size. -/
theorem State.hold_extents (s : State) (size : Size) :
    Entries.Hold ((extentChanges size).apply (s.entries Field.spelled))
      (s.params.withExtents size) := by
  obtain ⟨es, hes⟩ : ∃ es, s.entries Field.spelled = es := ⟨_, rfl⟩
  have hother : ∀ key, key ≠ "width" → key ≠ "height" →
      Entries.lookup key ((extentChanges size).apply es) = es.lookup key := by
    intro key hwidth hheight
    refine Changes.lookup_apply_of_ne (fun c hc => ?_) es
    rcases List.mem_pair.mp hc with rfl | rfl
    · exact hwidth
    · exact hheight
  rw [hes]
  intro f hf
  by_cases hwidth : f = .width
  · subst hwidth
    have hput : Entries.lookup Field.width.key ((extentChanges size).apply es) =
        some (.int size.width) := by
      show Entries.lookup "width" ((es.put "width" _).put "height" _) = _
      rw [Entries.lookup_put_of_ne (by decide), Entries.lookup_put_self]
    rw [Entries.spelled?_of_lookup hput]
    rfl
  by_cases hheight : f = .height
  · subst hheight
    have hput : Entries.lookup Field.height.key ((extentChanges size).apply es) =
        some (.int size.height) := by
      show Entries.lookup "height" ((es.put "width" _).put "height" _) = _
      rw [Entries.lookup_put_self]
    rw [Entries.spelled?_of_lookup hput]
    rfl
  -- Neither spelling of another field is one of the two keys that were put.
  have hkey := hother f.key (fun h => hwidth (Field.key_inj f .width h))
    fun h => hheight (Field.key_inj f .height h)
  have hspelled := hother f.spelled (fun h => hwidth (Field.spelled_inj f .width h))
    fun h => hheight (Field.spelled_inj f .height h)
  have hsame : Entries.spelled? f.key f.spelled ((extentChanges size).apply es) =
      es.spelled? f.key f.spelled := by
    unfold Entries.spelled?
    rw [hkey, hspelled]
  rw [hsame, ← hes]
  refine (Entries.spelled?_filterMap (fun _ => .inr rfl) s.get f).trans ?_
  rw [State.get_eq_params hf]
  cases f with
  | width => exact absurd rfl hwidth
  | height => exact absurd rfl hheight
  | _ => rfl

/-- A wanted size is all that changes. -/
theorem State.merged_extents {R : Bool → Params → Prop} {s : State} {inLayer : Bool}
    (hvalid : s.Holds Params.Valid LayerProps.Valid inLayer)
    (hshort : s.Holds R LayerProps.Short inLayer) (size : Size) :
    s.merged (extentChanges size) = pure ⟨s.params.withExtents size, s.layers⟩ := by
  refine State.merged_eq hvalid hshort (fun c hc => ?_) ?_ (s.hold_extents size)
  · rcases List.mem_pair.mp hc with rfl | rfl
    · exact fun h => nomatch h
    · exact fun h => nomatch h
  · have hparams := hvalid.params
    exact ⟨hparams.rotation, fun h => nomatch h⟩

/-! ## Layers -/

section

variable {α : Type} {es : Entries} {a : α} {v : Value} {first second : String}
  {c : Value → Check α}

theorem Entries.spelled?_of_second (hfirst : es.lookup first = none)
    (hsecond : es.lookup second = some v) : es.spelled? first second = some (second, v) := by
  rw [Entries.spelled?, hfirst, hsecond]
  rfl

theorem requiredField_of_second [Inhabited α] (hfirst : es.lookup first = none)
    (hsecond : es.lookup second = some v) (hc : c v = pure a) :
    requiredField es first second c = pure a := by
  rw [requiredField, Entries.spelled?_of_second hfirst hsecond]
  show Check.within _ (c v) = _
  rw [hc, Check.within_pure]

theorem fieldOr_of_second {default : α} (hfirst : es.lookup first = none)
    (hsecond : es.lookup second = some v) (hc : c v = pure a) :
    fieldOr es first second default c = pure a := by
  rw [fieldOr, Entries.spelled?_of_second hfirst hsecond]
  show Check.within _ (c v) = _
  rw [hc, Check.within_pure]

end

/-- The properties of a layer as entries with keys in the second spelling. -/
def LayerProps.spelled (p : LayerProps) : Entries :=
  [("id", .text p.id), ("image_path", .text p.imagePath),
    ("original_dimensions", p.originalDimensions.write), ("x", p.x.write), ("y", p.y.write),
    ("alpha", .int p.alpha), ("blend_mode", .text p.blend.name), ("visible", .bool p.visible),
    ("name", .text p.name)]

/-- The entry of the settings of a layer, if it has any. -/
def transformsEntry (transforms : Option State) : Entries :=
  match transforms with
  | none => []
  | some s => [("transforms", s.write)]

/-- The properties are read back from the second spelling too. -/
theorem LayerProps.read_spelled {p : LayerProps} (hvalid : p.Valid) (hshort : p.Short)
    (transforms : Option State) :
    LayerProps.read (p.spelled ++ transformsEntry transforms) = pure p := by
  obtain ⟨es, hes⟩ : ∃ es, p.spelled ++ transformsEntry transforms = es := ⟨_, rfl⟩
  have hfirst : es.lookup "imagePath" = none ∧ es.lookup "originalDimensions" = none ∧
      es.lookup "blendMode" = none := by
    subst hes
    cases transforms with
    | none => exact ⟨rfl, rfl, rfl⟩
    | some s => exact ⟨rfl, rfl, rfl⟩
  have hid : es.lookup "id" = some (.text p.id) := hes ▸ rfl
  have hidText : Check.within (.key "id") (Convert.text (.text p.id)) = pure p.id :=
    Check.within_pure
  have hpath : requiredField es "imagePath" "image_path" Convert.text = pure p.imagePath :=
    requiredField_of_second (v := .text p.imagePath) hfirst.1 (hes ▸ rfl) rfl
  have hsize : requiredField es "originalDimensions" "original_dimensions" Size.read =
      pure p.originalDimensions :=
    requiredField_of_second hfirst.2.1 (hes ▸ rfl) (Size.read_write _)
  have hx : fieldOr es "x" "x" .centered Position.check = pure p.x :=
    fieldOr_of_lookup (hes ▸ rfl) (Position.check_write hvalid.x hshort.x.isPrintable)
  have hy : fieldOr es "y" "y" .centered Position.check = pure p.y :=
    fieldOr_of_lookup (hes ▸ rfl) (Position.check_write hvalid.y hshort.y.isPrintable)
  have halpha : fieldOr es "alpha" "alpha" 0 (Convert.intBetween 0 100) = pure p.alpha :=
    fieldOr_of_lookup (hes ▸ rfl) (Convert.intBetween_int hvalid.alpha)
  have hblend : fieldOr es "blendMode" "blend_mode" .normal Blend.read = pure p.blend :=
    fieldOr_of_second hfirst.2.2 (hes ▸ rfl) (Blend.read_name _)
  have hvisible : fieldOr es "visible" "visible" true Convert.truth = pure p.visible :=
    fieldOr_of_lookup (v := .bool p.visible) (hes ▸ rfl) rfl
  have hname : fieldOr es "name" "name" "Layer" Convert.text = pure p.name :=
    fieldOr_of_lookup (v := .text p.name) (hes ▸ rfl) rfl
  rw [hes]
  unfold LayerProps.read
  rw [hid]
  simp only [hidText, hpath, hsize, hx, hy, halpha, hblend, hvisible, hname, pure_bind]

/-- The properties with other positions. -/
def LayerProps.placed (p : LayerProps) (x y : Position) : LayerProps := { p with x, y }

/-- Other positions are all that changes. -/
theorem Layer.merged_positions {R : Bool → Params → Prop} {l : Layer}
    (hvalid : l.Holds Params.Valid LayerProps.Valid) (hshort : l.Holds R LayerProps.Short)
    {x y : Position} (hx : x.Valid) (hy : y.Valid) (hxs : x.Short) (hys : y.Short) :
    l.merged [("x", x.write), ("y", y.write)] =
      pure { l with props := l.props.placed x y } := by
  obtain ⟨p, transforms⟩ := l
  have hdocument : Layer.merged ⟨p, transforms⟩ [("x", x.write), ("y", y.write)] =
      Layer.check (.object ((p.placed x y).spelled ++ transformsEntry transforms)) := by
    cases transforms with
    | none => rfl
    | some s => rfl
  have hprops : (p.placed x y).Valid ∧ (p.placed x y).Short := by
    cases transforms with
    | none =>
        have hvalid : p.Valid := hvalid
        have hshort : p.Short := hshort
        exact ⟨⟨hx, hy, hvalid.alpha⟩, ⟨hshort.size, hxs, hys⟩⟩
    | some s => exact ⟨⟨hx, hy, hvalid.1.alpha⟩, ⟨hshort.1.size, hxs, hys⟩⟩
  have htransforms : checkTransformsIn ((p.placed x y).spelled ++ transformsEntry transforms) =
      pure transforms := by
    rw [checkTransformsIn_eq]
    cases transforms with
    | none => rfl
    | some s =>
        have hread :=
          State.check_write (fun _ => LayerProps.Short.printable) s true hvalid.2 hshort.2
        rw [State.write_eq] at hread
        show Check.within (.key "transforms") (checkTransforms s.write) = _
        rw [State.write_eq, checkTransforms, hread]
        exact Check.within_pure
  rw [hdocument, Layer.check, LayerProps.read_spelled hprops.1 hprops.2, htransforms]
  rfl

end Retouch
