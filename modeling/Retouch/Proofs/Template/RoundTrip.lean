/-
  Templates there and back.

  The document of a template is read back around its settings (`Template.readAround_entries`), and
  the settings are read without dropping or ignoring any.  So a template is imported without
  warnings, and what it applies is the state that it was made from, without its image and crop and
  at the size that the template is for (`Template.import_export`).  Only a number that is too long
  to be read makes the import fail (`Template.importTemplate_wide`).
-/
import Retouch.Proofs.Template.Exportable
import Retouch.Proofs.Value.Unreadable

namespace Retouch

/-! ## Documents -/

theorem SizeMode.read_name (m : SizeMode) : SizeMode.read (.text m.name) = pure m := by
  cases m <;> rfl

theorem Entries.lookup_append (key : String) (es fs : Entries) :
    Entries.lookup key (es ++ fs) = (Entries.lookup key es).or (Entries.lookup key fs) := by
  induction es with
  | nil => rfl
  | cons e es ih =>
      obtain ⟨k, v⟩ := e
      by_cases hk : k = key <;> simp [Entries.lookup, hk, ih]

namespace Template

theorem lookup_optionalEntry (k key : String) (v : Option Value) :
    Entries.lookup k (optionalEntry key v) = if key = k then v else none := by
  cases v with
  | none => simp [optionalEntry, Entries.lookup]
  | some v => by_cases hk : key = k <;> simp [optionalEntry, Entries.lookup, hk]

/-- The entries of the document of a template. -/
def entries (t : Template) : Entries :=
  [("version", .text t.version)] ++ optionalEntry "name" (t.name.map .text) ++
    optionalEntry "description" (t.description.map .text) ++
    [("dimensionMode", .text t.mode.name)] ++
    optionalEntry "predefinedDimensions" (t.size.map Size.write) ++
    [("transformations", t.transformations.write),
      ("metadata", .object [("createdAt", .text t.createdAt)])]

theorem write_eq (t : Template) : t.write = .object t.entries := rfl

section

variable (t : Template)

theorem lookup_version : t.entries.lookup "version" = some (.text t.version) := rfl

theorem lookup_name : t.entries.lookup "name" = t.name.map .text := by
  simp [entries, Entries.lookup_append, lookup_optionalEntry, Entries.lookup]

theorem lookup_description : t.entries.lookup "description" = t.description.map .text := by
  simp [entries, Entries.lookup_append, lookup_optionalEntry, Entries.lookup]

theorem lookup_mode : t.entries.lookup "dimensionMode" = some (.text t.mode.name) := by
  simp [entries, Entries.lookup_append, lookup_optionalEntry, Entries.lookup]

theorem lookup_size : t.entries.lookup "predefinedDimensions" = t.size.map Size.write := by
  simp [entries, Entries.lookup_append, lookup_optionalEntry, Entries.lookup]

theorem lookup_size_spelled : t.entries.lookup "predefined_dimensions" = none := by
  simp [entries, Entries.lookup_append, lookup_optionalEntry, Entries.lookup]

theorem lookup_transformations :
    t.entries.lookup "transformations" = some t.transformations.write := by
  simp [entries, Entries.lookup_append, lookup_optionalEntry, Entries.lookup]

theorem lookup_metadata :
    t.entries.lookup "metadata" = some (.object [("createdAt", .text t.createdAt)]) := by
  simp [entries, Entries.lookup_append, lookup_optionalEntry, Entries.lookup]

theorem nodup_keys_entries : t.entries.keys.Nodup := by
  obtain ⟨version, name, description, mode, size, transformations, createdAt⟩ := t
  cases name <;> cases description <;> cases size <;>
    simp [entries, Entries.keys, optionalEntry]

theorem mem_optionalEntry {e : String × Value} {key : String} {v : Option Value} :
    e ∈ optionalEntry key v ↔ ∃ w ∈ v, e = (key, w) := by
  cases v <;> simp [optionalEntry]

/-- What holds of the texts, the size and the settings of a template holds of its entries. -/
theorem forall_mem_entries {P : Value → Prop} (htext : ∀ s, P (.text s))
    (hsize : ∀ d ∈ t.size, P d.write) (hstate : P t.transformations.write)
    (hdate : ∀ s, P (.object [("createdAt", .text s)])) : ∀ e ∈ t.entries, P e.2 := by
  intro e he
  simp only [entries, List.mem_append, List.mem_cons, List.not_mem_nil, or_false,
    mem_optionalEntry, Option.mem_map] at he
  obtain ((((rfl | ⟨_, ⟨s, -, rfl⟩, rfl⟩) | ⟨_, ⟨s, -, rfl⟩, rfl⟩) | rfl) |
    ⟨_, ⟨d, hd, rfl⟩, rfl⟩) | rfl | rfl := he
  · exact htext _
  · exact htext _
  · exact htext _
  · exact htext _
  · exact hsize d hd
  · exact hstate
  · exact hdate _

end

variable {t : Template}

/-- The document of a template has no long numbers if its settings have none. -/
theorem proper_write (hstate : t.transformations.write.Proper)
    (hsize : ∀ d ∈ t.size, d.write.Proper) : t.write.Proper := by
  refine ⟨t.nodup_keys_entries, Value.properEntries_iff.mpr ?_⟩
  exact t.forall_mem_entries (fun _ => trivial) hsize hstate
    fun _ => ⟨by simp [Entries.keys], trivial, trivial⟩

theorem finite_write (hstate : t.transformations.Finite) : t.write.Finite := by
  refine Value.finiteEntries_iff.mpr ?_
  exact t.forall_mem_entries (fun _ => trivial) (fun d _ => d.finite_write)
    (State.finite_write _ false hstate) fun _ => ⟨trivial, trivial⟩

/-- The document of a template is found in its text. -/
theorem readDocument_text (hs : t.transformations.Exportable)
    (hsize : ∀ d ∈ t.size, d.write.Proper) : readDocument t.text = .ok t.entries := by
  have hproper := proper_write (State.proper_of_short hs.admissible hs.short) hsize
  have hfinite := finite_write hs.finite
  have hversion : t.entries.lacks "version" = false := by
    rw [Entries.lacks, lookup_version]
  have htransformations : t.entries.lacks "transformations" = false := by
    rw [Entries.lacks, lookup_transformations, State.write_eq]
  have hmissing : requiredKeys.filter (Entries.lacks · t.entries) = [] := by
    simp [requiredKeys, hversion, htransformations]
  rw [readDocument, text, Value.parse_indented .document hproper hfinite, write_eq]
  simp only [hmissing, lookup_transformations, State.write_eq]
  rfl

/-- Entries that say what a template does around its settings are read as that. -/
theorem readAround_eq {es : Entries} (t : Template) (s : State)
    (hlookup : ∀ key, key ≠ "transformations" → es.lookup key = t.entries.lookup key) :
    readAround es (pure s) = pure { t with transformations := s } := by
  have hversion : es.lookup "version" = some (.text t.version) := by
    rw [hlookup _ (by decide), lookup_version]
  have hname : optionalKey es "name" "name" Convert.text = pure t.name := by
    refine optionalKey_eq (w := .text) ?_ fun _ _ => ⟨by simp, rfl⟩
    rw [Entries.spelled?, hlookup _ (by decide), lookup_name]
    cases t.name <;> rfl
  have hdescription : optionalKey es "description" "description" Convert.text =
      pure t.description := by
    refine optionalKey_eq (w := .text) ?_ fun _ _ => ⟨by simp, rfl⟩
    rw [Entries.spelled?, hlookup _ (by decide), lookup_description]
    cases t.description <;> rfl
  have hsize : optionalKey es "predefinedDimensions" "predefined_dimensions" Size.read =
      pure t.size := by
    refine optionalKey_eq (w := Size.write) ?_ fun d _ => ⟨by simp [Size.write], d.read_write⟩
    rw [Entries.spelled?, hlookup _ (by decide), lookup_size,
      hlookup _ (by decide), lookup_size_spelled]
    cases t.size <;> rfl
  have hmode : fieldOr es "dimensionMode" "dimension_mode" .adaptive SizeMode.read = pure t.mode :=
    fieldOr_of_lookup (by rw [hlookup _ (by decide), lookup_mode]) t.mode.read_name
  have hdate : readDate (.object [("createdAt", .text t.createdAt)]) = pure t.createdAt := by
    rw [readDate]
    exact fieldOr_of_lookup (v := .text t.createdAt) rfl rfl
  have hmetadata : fieldOr es "metadata" "metadata" fixedDate readDate = pure t.createdAt :=
    fieldOr_of_lookup (by rw [hlookup _ (by decide), lookup_metadata]) hdate
  rw [readAround, fieldOr_of_lookup hversion (a := t.version) rfl, hname, hdescription, hmode,
    hsize, hmetadata]
  rfl

/-- The entries around the settings of a template are read back. -/
theorem readAround_entries (t : Template) (s : State) :
    readAround (Entries.put "version" (.text t.version) (t.entries.erase "transformations"))
      (pure s) = pure { t with transformations := s } := by
  refine readAround_eq t s fun key hkey => ?_
  by_cases hversion : key = "version"
  · rw [hversion, Entries.lookup_put_self, lookup_version]
  · rw [Entries.lookup_put_of_ne hversion, Entries.lookup_erase_of_ne hkey]

theorem importDocument_entries (t : Template) (s : State) (warnings : List Warning)
    (current : Size) (issued : ℕ) :
    importDocument t.entries t.version s warnings current issued =
      (⟨warnings, some ({ t with transformations := s }, t.applied s current)⟩, issued) := by
  rw [importDocument, readAround_entries]
  rfl

/-- A template of the version in use is imported without warnings: what it applies is read from
    its settings without the crop. -/
theorem import_text (hs : t.transformations.Exportable) (hsize : ∀ d ∈ t.size, d.write.Proper)
    {settings : Settings} (hversion : t.version = settings.templateVersion) (current : Size)
    (issued : ℕ) :
    importTemplate t.text current settings issued =
      (.ok ⟨[], some ({ t with transformations := t.transformations.withoutCrop.normal },
        t.applied t.transformations.withoutCrop.normal current)⟩, issued) := by
  have hpart := (State.part_withoutCrop t.transformations).exportable hs
  have hkept := State.usableLayers_entries _ false hpart.usable
  have hread := State.readLenient_entries hpart
    (t.transformations.withoutCrop.entries Field.key).length issued
  rw [importTemplate, readDocument_text hs hsize]
  simp only [lookup_version, lookup_transformations, State.write_eq, Value.ofOption,
    Option.getD_some, State.filter_entries_crop, hkept, hread, Value.plainText,
    eq_true hversion, if_true, List.map_nil, List.append_nil, importDocument_entries]

end Template

/-! ## There and back -/

/-- The size that a template of a mode gives to an image: that of the image itself, or the one the
    template was made for, if it was made for one. -/
def SizeMode.imposed (mode : SizeMode) (current : Size) (size : Option Size) : Option Size :=
  match mode with
  | .adaptive => some current
  | .predefined => size

/-- What a field of a state becomes on the way through a template: the image, the crop and the mark
    of editing it stay behind, and the wanted size gives way to the one that is imposed. -/
def State.carried (s : State) (imposed : Option Size) : Field → Option Value
  | .imagePath | .originalDimensions | .visualCropEnabled => none
  | .cropLeft | .cropTop | .cropWidth | .cropHeight => none
  | .width => (imposed.map fun d => .int d.width) <|> s.get .width
  | .height => (imposed.map fun d => .int d.height) <|> s.get .height
  | f => s.get f

namespace Template

variable {s : State} {name : Option String} {mode : SizeMode} {description : Option String}
  {size : Option Size} {settings : Settings}

/-- The settings that go into a template are some of those of the state. -/
theorem part_ofState :
    (ofState s name mode description size settings).transformations.Part s where
  layers := by cases mode <;> rfl
  params f v hv := by
    cases mode <;> cases f <;> first | exact hv | cases hv

theorem wantedSize_eq_some {p : Params} {d : Size} (h : p.wantedSize = some d) :
    p.width = some d.width ∧ p.height = some d.height := by
  unfold Params.wantedSize at h
  split at h
  · rename_i width height hwidth hheight
    cases h
    exact ⟨(Option.mem_filter_iff.mp hwidth).1, (Option.mem_filter_iff.mp hheight).1⟩
  · cases h

/-- The size that a template records can be read again if the numbers of the state can. -/
theorem proper_size (hs : s.Short) (hsize : ∀ d ∈ size, d.write.Proper) :
    ∀ d ∈ (ofState s name mode description size settings).size, d.write.Proper := by
  intro d hd
  cases mode with
  | adaptive => cases hd
  | predefined =>
      cases size with
      | some e => exact hsize d hd
      | none =>
          obtain ⟨hwidth, hheight⟩ := wantedSize_eq_some (p := s.portable.params) hd
          have hkeys : ["width", "height"].Nodup := by decide
          exact ⟨hkeys, hs.params .width _ (congrArg (Option.map Value.int) hwidth),
            hs.params .height _ (congrArg (Option.map Value.int) hheight), trivial⟩

/-- A template applies the fields that it carries. -/
theorem get_applied {r : State} (current : Size)
    (hparams : r.params =
      (ofState s name mode description size settings).transformations.withoutCrop.params)
    (hlayers : r.layers.map writeLayers = s.layers.map writeLayers) (f : Field) :
    ((ofState s name mode description size settings).applied r current).get f =
      s.carried (mode.imposed current size) f := by
  obtain ⟨p, ls⟩ := r
  obtain rfl := hparams
  have hlast : ls.map (fun ls => Value.list (writeLayers ls)) =
      s.layers.map fun ls => Value.list (writeLayers ls) := by
    have h := congrArg (Option.map Value.list) hlayers
    rwa [Option.map_map, Option.map_map] at h
  cases mode with
  | adaptive =>
      cases f with
      | layers => exact hlast
      | _ => rfl
  | predefined =>
      cases size with
      | some d =>
          cases f with
          | layers => exact hlast
          | _ => rfl
      | none =>
          -- The size is then taken from the state itself, which has it already.
          unfold ofState applied
          simp only
          cases hsize : s.portable.params.wantedSize with
          | some d =>
              obtain ⟨hwidth, hheight⟩ := wantedSize_eq_some hsize
              cases f with
              | layers => exact hlast
              | width => exact (congrArg (Option.map Value.int) hwidth).symm
              | height => exact (congrArg (Option.map Value.int) hheight).symm
              | _ => rfl
          | none =>
              cases f with
              | layers => exact hlast
              | _ => rfl

/-- A state that goes through a template comes out without warnings, whatever image the template is
    applied to: nothing is changed but the wanted size, and only the image and the crop of the state
    itself are left behind. -/
theorem import_export {s : State} (hs : s.Exportable) (name : Option String) (mode : SizeMode)
    (description : Option String) {size : Option Size} (hsize : ∀ d ∈ size, d.write.Proper)
    (settings : Settings) (current : Size) (issued : ℕ) :
    ∃ t applied,
      importTemplate (ofState s name mode description size settings).text current settings issued =
        (.ok ⟨[], some (t, applied)⟩, issued) ∧
      applied.write = .object (Field.all.filterMap fun f =>
        (s.carried (mode.imposed current size) f).map (f.key, ·)) := by
  have hpart : (ofState s name mode description size settings).transformations.Part s :=
    part_ofState
  refine ⟨_, _, import_text (hpart.exportable hs) (proper_size hs.short hsize) rfl current issued,
    ?_⟩
  have hlayers := (State.map_writeLayers_normal
    (ofState s name mode description size settings).transformations.withoutCrop).trans
      (congrArg (Option.map writeLayers) hpart.layers)
  rw [State.write_eq, State.entries]
  simp only [get_applied current (State.normal_params _) hlayers]

/-- A cropped and blurred photo with a badge that is cropped itself. -/
def framed : State :=
  ⟨{ imagePath := some "sky.jpg", originalDimensions := some ⟨400, 300⟩
     cropLeft := some 10, cropTop := some 10, cropWidth := some 200, cropHeight := some 100
     width := some 80, blur := some 2.5, visualCropEnabled := some true },
    some [⟨{ id := "badge", imagePath := "badge.png", originalDimensions := ⟨32, 32⟩
             x := .absolute (.float 5.5) },
      some ⟨{ cropLeft := some 1, cropTop := some 1, cropWidth := some 30
              cropHeight := some 30 }, none⟩⟩]⟩

/-- The size is imposed, the crop of the photo stays behind, and the badge comes along. -/
theorem import_export_framed :
    framed.Exportable ∧ ∃ t applied,
      importTemplate (ofState framed (some "Frame") .predefined none (some ⟨640, 480⟩) {}).text
        ⟨4, 3⟩ {} 0 = (.ok ⟨[], some (t, applied)⟩, 0) ∧
      applied.write = .object [("width", .int 640), ("height", .int 480), ("blur", .float 2.5),
        ("layers", .list (writeLayers framed.layerList))] := by
  have hs : framed.Exportable := by
    refine ⟨⟨⟨fun _ h => (by cases h), fun h => (by cases h)⟩, ⟨⟨by decide, by decide⟩,
      ⟨fun _ h => (by cases h), fun _ => ⟨rfl, rfl⟩⟩⟩, trivial⟩,
      State.short_of_write (by decide +kernel) (by decide +kernel), ?_,
      ⟨trivial, ⟨⟨by decide, by decide, by decide⟩, trivial⟩, trivial⟩⟩
    refine ⟨fun f x hx => ?_, ⟨⟨?_, trivial⟩, fun f x hx => ?_⟩, trivial⟩
    · cases f <;> cases hx
      decide +kernel
    · show Number.isFinite 5.5 = true
      decide +kernel
    · cases f <;> cases hx
  have hsize : ∀ d ∈ some (Size.mk 640 480), d.write.Proper := by
    rintro d ⟨rfl⟩
    exact Size.proper_of_printable (by decide)
  obtain ⟨t, applied, hrun, hwrite⟩ :=
    import_export hs (some "Frame") .predefined none hsize {} ⟨4, 3⟩ 0
  exact ⟨hs, t, applied, hrun, hwrite⟩

/-! ## Numbers with too many digits -/

/-- A state with a crop of a given width that begins left of its image. -/
def wide (extent : ℤ) : State :=
  ⟨{ cropLeft := some (-1), cropTop := some 0, cropWidth := some extent, cropHeight := some 1 },
    none⟩

/-- The text of a template with a crop whose width has too many digits stands for no value. -/
theorem parse_wide {extent : ℤ} (h : Number.digitLimit < (Number.natText extent.natAbs).length)
    (settings : Settings) :
    Value.parse (ofState (wide extent) (some "Wide") .adaptive none none settings).text =
      .error (.tooManyDigits (Number.natText extent.natAbs).length) := by
  obtain ⟨t, ht⟩ : ∃ t, ofState (wide extent) (some "Wide") .adaptive none none settings = t :=
    ⟨_, rfl⟩
  have hcrop : t.transformations.write =
      .object ([("cropLeft", .int (-1)), ("cropTop", .int 0)] ++
        ("cropWidth", .int extent) :: [("cropHeight", .int 1)]) := by
    rw [← ht]
    rfl
  have hwrite : t.write = .object ([("version", .text t.version), ("name", .text "Wide"),
      ("dimensionMode", .text SizeMode.adaptive.name)] ++
        ("transformations", t.transformations.write) ::
          [("metadata", .object [("createdAt", .text t.createdAt)])]) := by
    rw [← ht]
    rfl
  have hfront : Value.ProperEntries [("cropLeft", .int (-1)), ("cropTop", .int 0)] :=
    ⟨Value.proper_int_iff.mp (by decide), Value.proper_int_iff.mp (by decide), trivial⟩
  have hstate : Value.Unreadable (Number.natText extent.natAbs).length
      (t.transformations.write.indented .document 1).toList := by
    rw [hcrop]
    exact Value.unreadable_indented .document 1 hfront ⟨trivial, trivial, trivial⟩
      (Value.unreadable_intText h)
  have hdocument : Value.Unreadable (Number.natText extent.natAbs).length
      (t.write.indented .document 0).toList := by
    rw [hwrite]
    exact Value.unreadable_indented .document 0 ⟨trivial, trivial, trivial, trivial⟩
      ⟨trivial, trivial, trivial, trivial⟩ hstate
  rw [ht]
  exact Value.parse_eq_error hdocument

theorem importTemplate_wide {extent : ℤ}
    (h : Number.digitLimit < (Number.natText extent.natAbs).length) (current : Size)
    (settings : Settings) (issued : ℕ) :
    importTemplate (ofState (wide extent) (some "Wide") .adaptive none none settings).text current
      settings issued =
        (.ok ⟨[.unreadable (.tooManyDigits (Number.natText extent.natAbs).length)], none⟩,
          issued) := by
  rw [importTemplate, readDocument, parse_wide h]

/-- A power of ten has one digit more than its exponent. -/
theorem length_natText_pow {k : ℕ} (hk : 0 < k) :
    (Number.natText (10 ^ k : ℤ).natAbs).length = k + 1 := by
  rw [Int.natAbs_pow, Number.natText, String.length_ofList]
  have hmore : ¬ (Nat.toDigits 10 (10 ^ k)).length ≤ k := by
    rw [Nat.length_toDigits_le_iff (by decide) hk]
    exact lt_irrefl _
  have hless : (Nat.toDigits 10 (10 ^ k)).length ≤ k + 1 := by
    rw [Nat.length_toDigits_le_iff (by decide) k.succ_pos]
    exact Nat.pow_lt_pow_right (by decide) k.lt_succ_self
  exact Nat.le_antisymm hless (Nat.lt_of_not_le hmore)

theorem length_natText_limit : (Number.natText (10 ^ Number.digitLimit : ℤ).natAbs).length =
    Number.digitLimit + 1 :=
  length_natText_pow (by decide)

theorem digitLimit_lt_length :
    Number.digitLimit < (Number.natText (10 ^ Number.digitLimit : ℤ).natAbs).length := by
  rw [length_natText_limit]
  exact Nat.lt_succ_self _

/-- A state may have a number that is too long to be read. Its template is written, but refused when
    it is imported. -/
theorem importTemplate_wide_limit :
    (wide (10 ^ Number.digitLimit)).Admissible ∧ (wide (10 ^ Number.digitLimit)).Finite ∧
      (wide (10 ^ Number.digitLimit)).Usable ∧
      importTemplate (ofState (wide (10 ^ Number.digitLimit)) (some "Wide") .adaptive none none
        {}).text ⟨4, 3⟩ {} 0 = (.ok ⟨[.unreadable (.tooManyDigits 4301)], none⟩, 0) := by
  refine ⟨⟨fun _ h => (by cases h), fun h => (by cases h)⟩, fun f x hx => ?_, trivial, ?_⟩
  · cases f <;> cases hx
  · rw [importTemplate_wide digitLimit_lt_length, length_natText_limit]
    rfl

end Template

end Retouch
