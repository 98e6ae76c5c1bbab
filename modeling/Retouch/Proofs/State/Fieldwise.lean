/-
  Documents read field by field.

  A state is read from many entries, each of which gives one field.  What stands at a field
  (`Entries.setting`) is converted to the form in which the field is written (`Field.convert`): that
  is so of every accepted document (`Params.accepts_settings`), and where all values can be
  converted there are settings to be read (`Params.exists_read`).  Settings that are written alike
  are the same, so nothing else is needed to tell them (`Params.ext_get`).
-/
import Retouch.Proofs.State.Definite

namespace Retouch

open Check (Accepts Definite)

/-! ## Plain results -/

namespace Check

variable {α β : Type} {c : Check α}

theorem pure_injective : Function.Injective (Pure.pure : α → Check α) := by
  intro a a' h
  exact Except.ok.inj (congrArg Prod.fst (congrFun h ⟨0, []⟩))

/-- What becomes a plain result by a map that tells all results apart was plain before. -/
theorem eq_pure_of_map {w : α → β} (hw : Function.Injective w) {b : β}
    (h : w <$> c = Pure.pure b) : ∃ a, b = w a ∧ c = Pure.pure a := by
  rw [← bind_pure_comp] at h
  have hat : ∀ p, ∃ a, b = w a ∧ c p = (.ok a, p) := by
    intro p
    have hp : ExceptT.bindCont (fun a => (Pure.pure (w a) : Check β)) (c p).1 (c p).2 =
      (Except.ok b, p) := congrFun h p
    cases hc : c p with
    | mk r q =>
        rw [hc] at hp
        cases r with
        | error e => cases hp
        | ok a =>
            cases hp
            exact ⟨a, rfl, rfl⟩
  obtain ⟨a, rfl, -⟩ := hat ⟨0, []⟩
  refine ⟨a, rfl, funext fun p => ?_⟩
  obtain ⟨a', ha', hp⟩ := hat p
  rw [hp, hw ha']
  rfl

end Check

/-! ## One field -/

theorem Value.isNull_eq_false {v : Value} (hv : v ≠ .null) : v.isNull = false := by
  cases v <;> first | rfl | exact absurd rfl hv

/-- The value of a field in either spelling, if there is one other than null. -/
def Entries.setting (f : Field) (es : Entries) : Option Value :=
  ((es.spelled? f.key f.spelled).map (·.2)).filter fun v => !v.isNull

section

variable {α : Type} {es : Entries} {f : Field} {c : Value → Check α}

theorem setting_of_spelled? {key : String} {v : Value} (hv : v ≠ .null)
    (h : es.spelled? f.key f.spelled = some (key, v)) : es.setting f = some v := by
  rw [Entries.setting, h]
  exact Option.filter_some_pos (by rw [Value.isNull_eq_false hv]; rfl)

/-- What is read of a field comes from its value. -/
theorem accepts_optionalField_setting (hc : ∀ v, (c v).Definite) :
    (optionalField es f c).Accepts fun o => (es.setting f).map c = o.map pure := by
  unfold optionalField
  split
  · rename_i hnone
    rw [Entries.setting, hnone]
    exact .pure rfl
  · rename_i hnull
    rw [Entries.setting, hnull]
    exact .pure rfl
  · rename_i key v hv hsome
    rw [setting_of_spelled? hv hsome]
    refine Accepts.within (Accepts.map (hc v) fun a ha => ?_) _
    rw [Option.map_some, ha]
    rfl

theorem optionalField_of_setting {o : Option α} (h : (es.setting f).map c = o.map pure) :
    optionalField es f c = pure o := by
  unfold optionalField
  split
  · rename_i hnone
    rw [Entries.setting, hnone] at h
    cases o with
    | none => rfl
    | some a => cases h
  · rename_i hnull
    rw [Entries.setting, hnull] at h
    cases o with
    | none => rfl
    | some a => cases h
  · rename_i key v hv hsome
    rw [setting_of_spelled? hv hsome] at h
    cases o with
    | none => cases h
    | some a =>
        rw [show c v = pure a from Option.some.inj h, map_pure]
        exact Check.within_pure

end

/-! ## Settings -/

/-- A value of a setting brought to the form in which it is written. -/
def Field.convert (f : Field) (v : Value) : Check Value :=
  match f with
  | .imagePath | .hAlign | .vAlign | .format | .fillColor => .text <$> Convert.text v
  | .originalDimensions => Size.write <$> Size.read v
  | .rotation => .int <$> Convert.rotation v
  | .brightness | .contrast | .saturation | .hue | .blur | .sharpen | .proportion =>
    .float <$> Convert.double v
  | .widthFull | .heightFull | .stretch | .fitIn | .smart | .grayscale | .hFlip | .vFlip
  | .stripIcc | .stripExif | .stripMetadata | .visualCropEnabled => .bool <$> Convert.truth v
  | .width | .height | .widthFullOffset | .heightFullOffset | .roundCornerRadius | .quality
  | .maxBytes | .cropLeft | .cropTop | .cropWidth | .cropHeight | .paddingTop | .paddingRight
  | .paddingBottom | .paddingLeft => .int <$> Convert.int v
  -- Layers are no setting; they are read as a tree.
  | .layers => pure v

theorem Size.write_injective : Function.Injective Size.write := by
  rintro ⟨w, h⟩ ⟨w', h'⟩ he
  simp only [Size.write, Value.object.injEq, List.cons.injEq, Prod.mk.injEq, Value.int.injEq,
    true_and, and_true] at he
  rw [he.1, he.2]

theorem Value.text_injective : Function.Injective Value.text := fun _ _ h => Value.text.inj h

theorem Value.int_injective : Function.Injective Value.int := fun _ _ h => Value.int.inj h

theorem Value.float_injective : Function.Injective Value.float := fun _ _ h => Value.float.inj h

theorem Value.bool_injective : Function.Injective Value.bool := fun _ _ h => Value.bool.inj h

/-- Settings that are written alike are the same. -/
theorem Params.ext_get {p q : Params} (h : ∀ f, p.get f = q.get f) : p = q := by
  have text : ∀ {a b : Option String}, a.map Value.text = b.map Value.text → a = b :=
    fun h => Option.map_injective Value.text_injective h
  have size : ∀ {a b : Option Size}, a.map Size.write = b.map Size.write → a = b :=
    fun h => Option.map_injective Size.write_injective h
  have int : ∀ {a b : Option Int}, a.map Value.int = b.map Value.int → a = b :=
    fun h => Option.map_injective Value.int_injective h
  have double : ∀ {a b : Option Float}, a.map Value.float = b.map Value.float → a = b :=
    fun h => Option.map_injective Value.float_injective h
  have truth : ∀ {a b : Option Bool}, a.map Value.bool = b.map Value.bool → a = b :=
    fun h => Option.map_injective Value.bool_injective h
  cases p
  cases q
  rw [Params.mk.injEq]
  exact ⟨text (h .imagePath), size (h .originalDimensions), int (h .width), int (h .height),
    truth (h .widthFull), int (h .widthFullOffset), truth (h .heightFull),
    int (h .heightFullOffset), truth (h .stretch), truth (h .fitIn), truth (h .smart),
    text (h .hAlign), text (h .vAlign), double (h .brightness), double (h .contrast),
    double (h .saturation), double (h .hue), double (h .blur), double (h .sharpen),
    truth (h .grayscale), int (h .roundCornerRadius), truth (h .hFlip), truth (h .vFlip),
    int (h .rotation), text (h .format), int (h .quality), int (h .maxBytes), truth (h .stripIcc),
    truth (h .stripExif), truth (h .stripMetadata), int (h .cropLeft), int (h .cropTop),
    int (h .cropWidth), int (h .cropHeight), truth (h .visualCropEnabled), text (h .fillColor),
    int (h .paddingTop), int (h .paddingRight), int (h .paddingBottom), int (h .paddingLeft),
    double (h .proportion)⟩

section

variable {es : Entries}

/-- Accepted settings are what the values of the fields are converted to. -/
theorem Params.accepts_settings (es : Entries) :
    (Params.read false es).Accepts fun p =>
      ∀ f, f ≠ .layers → (es.setting f).map f.convert = (p.get f).map pure := by
  have hfield : ∀ {α : Type} {c : Value → Check α} (w : α → Value) (f : Field),
      (∀ v, (c v).Definite) → (optionalField es f c).Accepts fun o =>
        (es.setting f).map (fun v => w <$> c v) = (o.map w).map pure := by
    intro α c w f hc
    refine (accepts_optionalField_setting hc).mono fun o ho => ?_
    have hmap := congrArg (Option.map (w <$> ·)) ho
    rw [Option.map_map, Option.map_map] at hmap
    rw [Option.map_map]
    refine hmap.trans (congrArg (Option.map · o) (funext fun a => ?_))
    exact map_pure w a
  have text := fun f => hfield Value.text f Convert.definite_text
  have size := fun f => hfield Size.write f Size.definite_read
  have int := fun f => hfield Value.int f Convert.definite_int
  have turn := fun f => hfield Value.int f Convert.definite_rotation
  have double := fun f => hfield Value.float f Convert.definite_double
  have truth := fun f => hfield Value.bool f Convert.definite_truth
  unfold Params.read
  simp only [Bool.false_eq_true, if_false]
  -- Conversions are told apart by their names alone, without opening them.
  repeat first
    | with_reducible refine (int _).bind fun _ => ?_
    | with_reducible refine (truth _).bind fun _ => ?_
    | with_reducible refine (double _).bind fun _ => ?_
    | with_reducible refine (text _).bind fun _ => ?_
    | with_reducible refine (turn _).bind fun _ => ?_
    | with_reducible refine (size _).bind fun _ => ?_
  refine .pure fun
    hProportion hPaddingLeft hPaddingBottom hPaddingRight hPaddingTop hFillColor hVisualCropEnabled
    hCropHeight hCropWidth hCropTop hCropLeft hStripMetadata hStripExif hStripIcc hMaxBytes hQuality
    hFormat hRotation hVFlip hHFlip hRoundCornerRadius hGrayscale hSharpen hBlur hHue hSaturation
    hContrast hBrightness hVAlign hHAlign hSmart hFitIn hStretch hHeightFullOffset hHeightFull
    hWidthFullOffset hWidthFull hHeight hWidth hOriginalDimensions hImagePath f hf => ?_
  cases f
  exacts [
    hImagePath, hOriginalDimensions, hWidth, hHeight, hWidthFull, hWidthFullOffset, hHeightFull,
    hHeightFullOffset, hStretch, hFitIn, hSmart, hHAlign, hVAlign, hBrightness, hContrast,
    hSaturation, hHue, hBlur, hSharpen, hGrayscale, hRoundCornerRadius, hHFlip, hVFlip, hRotation,
    hFormat, hQuality, hMaxBytes, hStripIcc, hStripExif, hStripMetadata, hCropLeft, hCropTop,
    hCropWidth, hCropHeight, hVisualCropEnabled, hFillColor, hPaddingTop, hPaddingRight,
    hPaddingBottom, hPaddingLeft, hProportion, absurd rfl hf]

/-- Settings are read without a problem if the values of all fields can be converted. -/
theorem Params.exists_read {q : Field → Option Value}
    (h : ∀ f, f ≠ .layers → (es.setting f).map f.convert = (q f).map pure) :
    ∃ p, Params.read false es = pure p := by
  have hbind : ∀ {α β : Type} {c : Check α} {k : α → Check β}, (∃ a, c = pure a) →
      (∀ a, ∃ b, k a = pure b) → ∃ b, c >>= k = pure b := by
    rintro α β c k ⟨a, rfl⟩ hk
    obtain ⟨b, hb⟩ := hk a
    exact ⟨b, (pure_bind a k).trans hb⟩
  have hfield : ∀ {α : Type} {c : Value → Check α} {w : α → Value} {f : Field} {o : Option Value},
      Function.Injective w → (es.setting f).map (fun v => w <$> c v) = o.map pure →
      ∃ a, optionalField es f c = pure a := by
    intro α c w f o hw ho
    cases hv : es.setting f with
    | none => exact ⟨none, optionalField_of_setting (by rw [hv]; rfl)⟩
    | some v =>
        rw [hv] at ho
        cases o with
        | none => cases ho
        | some b =>
            obtain ⟨a, -, ha⟩ := Check.eq_pure_of_map hw (Option.some.inj ho)
            exact ⟨some a, optionalField_of_setting (by rw [hv, Option.map_some, ha]; rfl)⟩
  unfold Params.read
  simp only [Bool.false_eq_true, if_false]
  repeat first
    | refine hbind (hfield Value.int_injective (h _ (by decide))) fun _ => ?_
    | refine hbind (hfield Value.bool_injective (h _ (by decide))) fun _ => ?_
    | refine hbind (hfield Value.float_injective (h _ (by decide))) fun _ => ?_
    | refine hbind (hfield Value.text_injective (h _ (by decide))) fun _ => ?_
    | refine hbind (hfield Size.write_injective (h _ (by decide))) fun _ => ?_
  exact ⟨_, rfl⟩

end

/-- A setting in the form that reading gives is written as a value that stays as it is. -/
theorem Params.convert_get {p : Params} (hturn : ∀ n ∈ p.rotation, normalTurn? n = some n)
    {f : Field} {v : Value} (h : p.get f = some v) : v ≠ .null ∧ f.convert v = pure v := by
  cases f with
  | layers => cases h
  | originalDimensions =>
      obtain ⟨d, -, rfl⟩ := Option.map_eq_some_iff.mp h
      refine ⟨by simp [Size.write], ?_⟩
      show Size.write <$> Size.read d.write = _
      rw [d.read_write, map_pure]
  | rotation =>
      obtain ⟨n, hn, rfl⟩ := Option.map_eq_some_iff.mp h
      refine ⟨by simp, ?_⟩
      show Value.int <$> Convert.rotation (.int n) = _
      rw [Convert.rotation_int (hturn n hn), map_pure]
  | _ =>
      obtain ⟨a, -, rfl⟩ := Option.map_eq_some_iff.mp h
      exact ⟨by simp, rfl⟩

/-! ## Layers -/

section

variable {es : Entries}

/-- Layers have one spelling only. -/
theorem Entries.spelled?_layers (es : Entries) :
    (es.spelled? Field.layers.key Field.layers.spelled).map (·.2) = es.lookup "layers" := by
  show (es.spelled? "layers" "layers").map (·.2) = _
  unfold Entries.spelled?
  cases es.lookup "layers" with
  | none => rfl
  | some v => rfl

theorem Entries.setting_layers (es : Entries) :
    es.setting .layers = (es.lookup "layers").filter fun v => !v.isNull := by
  rw [setting, spelled?_layers]

/-- Accepted layers are what their value is read as. -/
theorem accepts_checkLayersIn_setting
    (h : ∀ v, Entries.lookup "layers" es = some v → ¬ v.ListsNameless) :
    (checkLayersIn es).Accepts fun o =>
      (es.setting .layers).map checkLayers = o.map fun ls => pure (some ls) := by
  rw [checkLayersIn_eq, es.setting_layers]
  cases hv : Entries.lookup "layers" es with
  | none => exact .pure rfl
  | some v =>
      refine Accepts.within ?_ _
      cases v with
      | null =>
          rw [checkLayers]
          exact .pure rfl
      | list vs =>
          have hitems := definite_checkItems vs 0 fun l hl hin => h _ hv ⟨vs, l, rfl, hl, hin⟩
          rw [checkLayers]
          refine Accepts.map hitems fun ls hls => ?_
          show some (checkLayers (.list vs)) = some (pure (some ls))
          rw [checkLayers, hls, map_pure]
      | _ =>
          rw [checkLayers]
          · exact .note
          · simp
          · simp

theorem checkLayersIn_of_setting {o : Option (List Layer)}
    (h : (es.setting .layers).map checkLayers = o.map fun ls => pure (some ls)) :
    checkLayersIn es = pure o := by
  rw [es.setting_layers] at h
  rw [checkLayersIn_eq]
  cases hv : Entries.lookup "layers" es with
  | none =>
      rw [hv] at h
      cases o with
      | none => rfl
      | some ls => cases h
  | some v =>
      show Check.within _ (checkLayers v) = _
      rw [hv] at h
      cases hnull : v.isNull with
      | true =>
          obtain rfl : v = .null := by
            cases v <;> first | rfl | cases hnull
          cases o with
          | none =>
              rw [checkLayers]
              exact Check.within_pure
          | some ls => cases h
      | false =>
          rw [Option.filter_some_pos (by rw [hnull]; rfl)] at h
          cases o with
          | none => cases h
          | some ls =>
              rw [show checkLayers v = pure (some ls) from Option.some.inj h]
              exact Check.within_pure

end

end Retouch
