/-
  What a check finds wrong with a document.

  The ids that are issued on the way go into the result of a check and nowhere else, so whether a
  document is accepted does not depend on how many there were before (`Check.Follows`,
  `State.follows_check`).  And what is wrong with the entries of a state is wrong with the value of
  one field (`Field.reading`): each problem of the whole is placed at the key that a field is read
  from, and that field does not take what stands there (`State.notes_check`); where the whole is
  accepted every field takes its value (`State.accepts_passes`).
-/
import Retouch.Proofs.State.Fieldwise
import Retouch.Proofs.State.Stray

namespace Retouch

open Check (Accepts Definite Steady)

/-! ## Checks that find nothing -/

namespace Check

variable {α β γ δ : Type} {c : Check α} {d : Check β}

/-- Whether a check finds nothing wrong, however far the reading is. -/
def Passes (c : Check α) : Prop := ∀ p, ∃ a n, c p = (.ok a, { p with issued := n })

theorem Passes.pure (a : α) : Passes (Pure.pure a : Check α) := fun p => ⟨a, p.issued, rfl⟩

theorem Passes.freshId : Passes Check.freshId := fun _ => ⟨_, _, rfl⟩

theorem Passes.bind {f : α → Check β} (hc : c.Passes) (hf : ∀ a, (f a).Passes) :
    (c >>= f).Passes := by
  intro p
  obtain ⟨a, n, ha⟩ := hc p
  obtain ⟨b, m, hb⟩ := hf a { p with issued := n }
  refine ⟨b, m, ?_⟩
  show ExceptT.bindCont f (c p).1 (c p).2 = _
  rw [ha]
  exact hb

theorem Passes.within (hc : c.Passes) (step : Step) : (Check.within step c).Passes := by
  intro p
  obtain ⟨a, n, ha⟩ := hc { p with problems := [] }
  refine ⟨a, n, ?_⟩
  simp only [Check.within, ha, List.map_nil, List.append_nil]

/-- What a check makes of its result does not matter. -/
theorem passes_map_iff {f : α → β} : (f <$> c).Passes ↔ c.Passes := by
  have hrun : ∀ p, (f <$> c) p = ExceptT.bindCont (fun a => (Pure.pure (f a) : Check β))
      (c p).1 (c p).2 := by
    intro p
    rw [← bind_pure_comp]
    rfl
  refine forall_congr' fun p => ?_
  rw [hrun]
  constructor
  · rintro ⟨b, n, hb⟩
    cases hc : c p with
    | mk r q =>
        rw [hc] at hb
        cases r with
        | error e => cases hb
        | ok a =>
            have hq : q = { p with issued := n } := congrArg Prod.snd hb
            exact ⟨a, n, congrArg (Prod.mk _) hq⟩
  · rintro ⟨a, n, ha⟩
    rw [ha]
    exact ⟨f a, n, rfl⟩

/-- A run of a check that finds nothing has a result. -/
theorem Passes.run (hc : c.Passes) (n : Nat) : ∃ a m, c.run n = (.ok a, m) := by
  obtain ⟨a, m, ha⟩ := hc ⟨n, []⟩
  refine ⟨a, m, ?_⟩
  unfold Check.run
  rw [ha]
  rfl

/-! ## Checks that agree -/

/-- Whether a check that is accepted once leaves nothing for another to find. -/
def Follows (c : Check α) (d : Check β) : Prop := c.Accepts fun _ => d.Passes

theorem Definite.follows (hc : c.Definite) : c.Follows c :=
  Accepts.mono hc fun a ha => ha ▸ Passes.pure a

theorem Follows.pure (a : α) (b : β) : Follows (Pure.pure a : Check α) (Pure.pure b : Check β) :=
  Accepts.pure (.pure b)

theorem Follows.note {kind : Problem.Kind} {a : α} : Follows (Check.note kind a) d := Accepts.note

theorem Follows.freshId : Follows Check.freshId Check.freshId :=
  Accepts.freshId fun _ => .freshId

theorem Accepts.forall {ι : Type} [Nonempty ι] {P : ι → α → Prop} (h : ∀ i, c.Accepts (P i)) :
    c.Accepts fun a => ∀ i, P i a :=
  fun p a q hrun => ⟨(h (Classical.arbitrary ι) p a q hrun).1, fun hq i => (h i p a q hrun).2 hq⟩

/-- The results of the first checks may differ. -/
theorem Follows.bind [Nonempty β] {f : α → Check γ} {g : β → Check δ} (hc : c.Follows d)
    (hf : ∀ a b, (f a).Follows (g b)) : (c >>= f).Follows (d >>= g) :=
  Accepts.bind hc fun a => (Accepts.forall (hf a)).mono fun _ hg hd => hd.bind hg

theorem Follows.map {f : α → γ} {g : β → δ} (hc : c.Follows d) : (f <$> c).Follows (g <$> d) :=
  Accepts.map hc fun _ hd => passes_map_iff.mpr hd

theorem Follows.within (hc : c.Follows d) (step : Step) :
    (Check.within step c).Follows (Check.within step d) :=
  (Accepts.within hc step).mono fun _ hd => hd.within step

/-- A check that agrees with itself is accepted in every run or in none. -/
theorem Follows.passes_of_run (hc : c.Follows d) {n m : Nat} {a : α}
    (h : c.run n = (.ok a, m)) : d.Passes :=
  Accepts.of_run hc (congrArg Prod.fst h)

end Check

open Check (Follows Passes)

/-! ## The tree -/

/-- The id of a layer without one is the only part that differs. -/
theorem LayerProps.follows_read (es : Entries) :
    (LayerProps.read es).Follows (LayerProps.read es) := by
  by_cases hid : es.lookup "id" = none
  · unfold LayerProps.read
    extract_lets rest
    -- The two runs may issue different ids, so what comes after is compared for any two.
    have hrest : ∀ id id', (rest id).Follows (rest id') := by
      intro id id'
      refine (definite_requiredField Convert.definite_text).follows.bind fun _ _ => ?_
      refine (definite_requiredField Size.definite_read).follows.bind fun _ _ => ?_
      refine (definite_fieldOr Position.definite_check).follows.bind fun _ _ => ?_
      refine (definite_fieldOr Position.definite_check).follows.bind fun _ _ => ?_
      refine (definite_fieldOr fun v => Convert.definite_intBetween v 0 100).follows.bind
        fun _ _ => ?_
      refine (definite_fieldOr Blend.definite_read).follows.bind fun _ _ => ?_
      refine (definite_fieldOr Convert.definite_truth).follows.bind fun _ _ => ?_
      refine (definite_fieldOr Convert.definite_text).follows.bind fun _ _ => ?_
      exact .pure _ _
    rw [hid]
    exact Follows.freshId.bind hrest
  · exact (LayerProps.definite_read hid).follows

mutual

/-- Whether a tree is accepted does not depend on the ids issued before. -/
theorem State.follows_check (v : Value) (inLayer : Bool) :
    (State.check inLayer v).Follows (State.check inLayer v) := by
  cases v with
  | object es =>
      have hlayers := follows_checkLayersIn es
      rw [State.check]
      refine (Params.definite_read inLayer es).follows.bind fun _ _ => ?_
      exact hlayers.bind fun _ _ => .pure _ _
  | _ =>
      rw [State.check]
      · exact .note
      · simp

theorem follows_checkLayersIn (es : List (String × Value)) :
    (checkLayersIn es).Follows (checkLayersIn es) := by
  cases es with
  | nil =>
      rw [checkLayersIn]
      exact .pure _ _
  | cons e es =>
      obtain ⟨k, v⟩ := e
      have hhere := follows_checkLayers v
      have hrest := follows_checkLayersIn es
      rw [checkLayersIn]
      split
      · exact hhere.within _
      · exact hrest

theorem follows_checkLayers (v : Value) : (checkLayers v).Follows (checkLayers v) := by
  cases v with
  | null =>
      rw [checkLayers]
      exact .pure _ _
  | list vs =>
      have hitems := follows_checkItems vs 0
      rw [checkLayers]
      exact hitems.map
  | _ =>
      rw [checkLayers]
      · exact .note
      · simp
      · simp

theorem follows_checkItems (vs : List Value) (n : ℕ) :
    (checkItems n vs).Follows (checkItems n vs) := by
  cases vs with
  | nil =>
      rw [checkItems]
      exact .pure _ _
  | cons v vs =>
      have hlayer := Layer.follows_check v
      have hrest := follows_checkItems vs (n + 1)
      rw [checkItems]
      refine (hlayer.within _).bind fun _ _ => ?_
      exact hrest.bind fun _ _ => .pure _ _

theorem Layer.follows_check (v : Value) : (Layer.check v).Follows (Layer.check v) := by
  cases v with
  | object es =>
      have htransforms := follows_checkTransformsIn es
      rw [Layer.check]
      refine (LayerProps.follows_read es).bind fun _ _ => ?_
      exact htransforms.bind fun _ _ => .pure _ _
  | _ =>
      rw [Layer.check]
      · exact .note
      · simp

theorem follows_checkTransformsIn (es : List (String × Value)) :
    (checkTransformsIn es).Follows (checkTransformsIn es) := by
  cases es with
  | nil =>
      rw [checkTransformsIn]
      exact .pure _ _
  | cons e es =>
      obtain ⟨k, v⟩ := e
      have hhere := follows_checkTransforms v
      have hrest := follows_checkTransformsIn es
      rw [checkTransformsIn]
      split
      · exact hhere.within _
      · exact hrest

theorem follows_checkTransforms (v : Value) : (checkTransforms v).Follows (checkTransforms v) := by
  cases v with
  | null =>
      rw [checkTransforms]
      exact .pure _ _
  | object es =>
      have hstate := State.follows_check (.object es) true
      rw [checkTransforms]
      exact hstate.map
  | _ =>
      rw [checkTransforms]
      · exact .note
      · simp
      · simp

end

/-! ## One field -/

/-- The check of a value for a field alone; null stands for no value. -/
def Field.reading (f : Field) (v : Value) : Check Unit :=
  if v.isNull then pure ()
  else
    match f with
    | .layers => (fun _ => ()) <$> checkLayers v
    | f => (fun _ => ()) <$> f.convert v

/-- Whether a field refuses a value: its check tells problems, whatever ids were issued. -/
def Field.Refuses (f : Field) (v : Value) : Prop :=
  ∀ n, ∃ problems m, (f.reading v).run n = (.error (.invalid problems), m)

section

variable {f : Field} {v : Value}

theorem Field.passes_reading_null (f : Field) : (f.reading .null).Passes := Passes.pure ()

theorem Field.passes_reading_iff (hf : f ≠ .layers) (hv : v ≠ .null) :
    (f.reading v).Passes ↔ (f.convert v).Passes := by
  have hnull := Value.isNull_eq_false hv
  have hreading : f.reading v = (fun _ => ()) <$> f.convert v := by
    unfold reading
    rw [hnull]
    cases f with
    | layers => exact absurd rfl hf
    | _ => rfl
  rw [hreading]
  exact Check.passes_map_iff

theorem Field.passes_reading_layers_iff (v : Value) :
    (Field.layers.reading v).Passes ↔ (checkLayers v).Passes := by
  cases v with
  | null =>
      rw [checkLayers]
      exact iff_of_true (Passes.pure ()) (Passes.pure none)
  | _ => exact Check.passes_map_iff

theorem Field.definite_convert (hf : f ≠ .layers) (v : Value) : (f.convert v).Definite := by
  unfold convert
  cases f <;> first
    | exact absurd rfl hf
    | exact (Convert.definite_text v).map
    | exact (Size.definite_read v).map
    | exact (Convert.definite_rotation v).map
    | exact (Convert.definite_double v).map
    | exact (Convert.definite_truth v).map
    | exact (Convert.definite_int v).map

/-- Whether a field takes a value does not depend on the ids issued before. -/
theorem Field.follows_reading (f : Field) (v : Value) : (f.reading v).Follows (f.reading v) := by
  unfold reading
  split
  · exact .pure _ _
  · split
    · exact (follows_checkLayers v).map
    · rename_i hf
      exact (definite_convert hf v).follows.map

/-- A value that is refused is not taken. -/
theorem Field.Refuses.not_passes (h : f.Refuses v) : ¬ (f.reading v).Passes := by
  intro hpasses
  obtain ⟨a, m, hok⟩ := hpasses.run 0
  obtain ⟨problems, m', herror⟩ := h 0
  cases hok.symm.trans herror

/-- Whether a value ends the check of a field with a stray failure. -/
def Field.StopsAt (f : Field) (v : Value) : Prop :=
  match f with
  | .rotation => v.StopsTurn
  | .layers => ∃ vs, v = .list vs ∧ ∃ l ∈ vs, l.LayerStops anyLayer
  | _ => False

theorem Field.breaks_reading (f : Field) (v : Value) : (f.reading v).Breaks (f.StopsAt v) := by
  by_cases hv : v = .null
  · subst hv
    refine (Steady.pure ()).congr (iff_of_false id ?_)
    cases f with
    | rotation => exact id
    | layers => exact fun ⟨vs, h, _⟩ => nomatch h
    | _ => exact id
  · unfold reading StopsAt
    rw [Value.isNull_eq_false hv]
    cases f with
    | rotation => exact (Convert.breaks_rotation hv).map.map
    | layers => exact (breaks_checkLayers v).map
    | originalDimensions => exact (Size.steady_read v).map.map
    | imagePath | hAlign | vAlign | format | fillColor => exact (Convert.steady_text v).map.map
    | brightness | contrast | saturation | hue | blur | sharpen | proportion =>
      exact (Convert.steady_double v).map.map
    | widthFull | heightFull | stretch | fitIn | smart | grayscale | hFlip | vFlip | stripIcc
    | stripExif | stripMetadata | visualCropEnabled => exact (Convert.steady_truth v).map.map
    | _ => exact (Convert.steady_int v).map.map

/-- A value that does not end the check of a field is taken or refused. -/
theorem Field.refuses_of_not_passes (hstops : ¬ f.StopsAt v) (h : ¬ (f.reading v).Passes) :
    f.Refuses v := by
  intro n
  rcases (f.breaks_reading v).of_run n with ⟨hbad, -⟩ | ⟨-, ⟨a, m, hok⟩ | hproblems⟩
  · exact absurd hbad hstops
  · exact absurd ((f.follows_reading v).passes_of_run hok) h
  · exact hproblems

end

/-- Where entries are accepted as a state every field takes the value that it is read from. -/
theorem State.accepts_passes (es : Entries) :
    (State.check false (.object es)).Accepts fun _ => ∀ (f : Field) key v,
      es.spelled? f.key f.spelled = some (key, v) → (f.reading v).Passes := by
  have hlayers : (checkLayersIn es).Accepts fun _ =>
      ∀ v, es.lookup "layers" = some v → (checkLayers v).Passes := by
    rw [checkLayersIn_eq]
    cases Entries.lookup "layers" es with
    | none => exact .pure nofun
    | some v =>
        refine (Accepts.within (follows_checkLayers v) (.key "layers")).mono fun _ hv w hw => ?_
        cases hw
        exact hv
  rw [State.check]
  refine Accepts.bind (Params.accepts_settings es) fun p => ?_
  refine hlayers.bind fun _ => .pure fun hlayers hsettings f key v hspelled => ?_
  by_cases hf : f = .layers
  · subst hf
    refine (Field.passes_reading_layers_iff v).mpr (hlayers v ?_)
    have hsome := congrArg (Option.map Prod.snd) hspelled
    rwa [Entries.spelled?_layers] at hsome
  · -- A null is found but not read, so the settings do not tell of it.
    by_cases hnull : v = .null
    · rw [hnull]
      exact f.passes_reading_null
    · have hv := hsettings f hf
      rw [setting_of_spelled? hnull hspelled] at hv
      obtain ⟨w, -, hw⟩ := Option.map_eq_some_iff.mp hv.symm
      refine (Field.passes_reading_iff hf hnull).mpr ?_
      rw [← show pure w = f.convert v from hw]
      exact .pure w

end Retouch
