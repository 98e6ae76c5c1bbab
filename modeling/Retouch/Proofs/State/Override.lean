/-
  Changes override a state field by field.

  Reading entries takes every field from its own key and from nothing else.  So what a state gets
  from a document is told one field at a time (`State.Takes`): an accepted document gives every
  field what stands there (`State.accepts_takes`), and a state of which that is so is what the
  document reads as (`State.check_of_takes`).  Merging changes into a state is reading its own
  entries with those of the changes in place, hence a pointwise override (`State.merged_overrides`).
-/
import Retouch.Proofs.State.Bears
import Retouch.Proofs.State.Fieldwise
import Retouch.Proofs.State.Printable
import Retouch.Proofs.Value.Distinct

namespace Retouch

/-! ## Whole states -/

namespace State

/-- Whether a state has at a field what a value is read as there, and nothing if there is none. -/
def Takes (s : State) (f : Field) (v : Option Value) : Prop :=
  match f with
  | .layers => v.map checkLayers = s.layers.map fun ls => pure (some ls)
  | f => v.map f.convert = (s.params.get f).map pure

/-- Whether two states are the same at a field; layers are compared as trees. -/
def AgreesAt (f : Field) (s t : State) : Prop :=
  match f with
  | .layers => s.layers = t.layers
  | f => s.params.get f = t.params.get f

variable {s t r : State} {f : Field} {v : Option Value} {es : Entries}

theorem takes_iff (hf : f ≠ .layers) :
    s.Takes f v ↔ v.map f.convert = (s.params.get f).map pure := by
  cases f <;> first | rfl | exact absurd rfl hf

theorem agreesAt_iff (hf : f ≠ .layers) :
    s.AgreesAt f t ↔ s.params.get f = t.params.get f := by
  cases f <;> first | rfl | exact absurd rfl hf

/-- States that agree at all fields are the same. -/
theorem eq_of_agreesAt (h : ∀ f, s.AgreesAt f t) : s = t := by
  have hparams : s.params = t.params := by
    refine Params.ext_get fun f => ?_
    by_cases hf : f = .layers
    · subst hf
      rfl
    · exact (agreesAt_iff hf).mp (h f)
  have hlayers : s.layers = t.layers := h .layers
  obtain ⟨p, layers⟩ := s
  obtain ⟨q, layers'⟩ := t
  simp only at hparams hlayers
  rw [hparams, hlayers]

/-- A value is read as one thing only. -/
theorem Takes.agreesAt (hs : s.Takes f v) (ht : t.Takes f v) : s.AgreesAt f t := by
  by_cases hf : f = .layers
  · subst hf
    have hinj : Function.Injective fun ls : List Layer => (pure (some ls) : Check _) :=
      fun _ _ h => Option.some.inj (Check.pure_injective h)
    exact Option.map_injective hinj (Eq.trans (Eq.symm hs) ht)
  · rw [takes_iff hf] at hs ht
    exact (agreesAt_iff hf).mpr (Option.map_injective Check.pure_injective (hs.symm.trans ht))

theorem Takes.congr (hs : s.Takes f v) (h : t.AgreesAt f s) : t.Takes f v := by
  by_cases hf : f = .layers
  · subst hf
    have hlayers : t.layers = s.layers := h
    show v.map checkLayers = t.layers.map _
    rw [hlayers]
    exact hs
  · rw [takes_iff hf] at hs ⊢
    rw [hs, (agreesAt_iff hf).mp h]

/-- An accepted document gives every field what stands there. -/
theorem accepts_takes (h : ∀ v, Entries.lookup "layers" es = some v → ¬ v.ListsNameless) :
    (State.check false (.object es)).Accepts fun s => ∀ f, s.Takes f (es.setting f) := by
  rw [State.check]
  refine (Params.accepts_settings es).bind fun p => ?_
  refine (accepts_checkLayersIn_setting h).bind fun layers => .pure fun hlayers hp f => ?_
  by_cases hf : f = .layers
  · subst hf
    exact hlayers
  · exact (takes_iff hf).mpr (hp f hf)

/-- A document of which every field gives what a state has there is read as that state. -/
theorem check_of_takes (h : ∀ f, s.Takes f (es.setting f)) :
    State.check false (.object es) = pure s := by
  have hsettings := fun f hf => (takes_iff hf).mp (h f)
  obtain ⟨p, hp⟩ := Params.exists_read hsettings
  have hread := Params.accepts_settings es
  rw [hp] at hread
  have hparams : p = s.params := by
    refine Params.ext_get fun f => ?_
    by_cases hf : f = .layers
    · subst hf
      rfl
    · exact Option.map_injective Check.pure_injective
        ((hread.of_pure f hf).symm.trans (hsettings f hf))
  rw [State.check, hp, checkLayersIn_of_setting (h .layers), hparams]
  obtain ⟨params, layers⟩ := s
  rfl

/-! ## Written states -/

/-- What is weaker than a property of all layers holds of them, the settings being as they are. -/
theorem Holds.mono_props {P : Bool → Params → Prop} {Q Q' : LayerProps → Prop} {inLayer : Bool}
    (hQ : ∀ p, Q p → Q' p) (h : s.Holds P Q inLayer) : s.Holds P Q' inLayer := by
  obtain ⟨p, _ | ls⟩ := s
  · exact h
  · exact ⟨h.1, layersHold.mono (fun _ h => h) hQ ls h.2⟩

theorem Valid.admissible (h : s.Valid) : s.Admissible := Holds.mono_props (fun _ h => h.alpha) h

/-- A written field is read as it was, in normal form. -/
theorem Takes.of_written (hs : s.Holds Params.Valid (fun _ => True) false)
    (ht : t.Takes f (s.get f)) : t.AgreesAt f s.normal := by
  by_cases hf : f = .layers
  · subst hf
    have ht : (s.layers.map fun ls => Value.list (writeLayers ls)).map checkLayers =
        t.layers.map fun ls => pure (some ls) := ht
    show t.layers = s.normal.layers
    rw [normal_layers]
    cases hls : s.layers with
    | none =>
        rw [hls] at ht
        cases hlt : t.layers with
        | none => rfl
        | some ls => rw [hlt] at ht; cases ht
    | some ls =>
        rw [hls] at ht
        cases hlt : t.layers with
        | none => rw [hlt] at ht; cases ht
        | some ls' =>
            rw [hlt] at ht
            have hread : checkLayers (.list (writeLayers ls)) = pure (some ls') :=
              Option.some.inj ht
            have hitems := (accepts_checkItems_write ls 0 (hs.layers hls)).map
              (P := (· = some (normalLayers ls))) fun _ h => congrArg some h
            rw [checkLayers] at hread
            rw [hread] at hitems
            exact hitems.of_pure
  · rw [takes_iff hf, get_eq_params hf] at ht
    rw [agreesAt_iff hf, normal_params]
    have hturn := hs.params.rotation
    cases hv : s.params.get f with
    | none =>
        rw [hv] at ht
        cases hw : t.params.get f with
        | none => rfl
        | some w => rw [hw] at ht; cases ht
    | some v =>
        rw [hv, Option.map_some, (Params.convert_get hturn hv).2] at ht
        exact Option.map_injective Check.pure_injective ht.symm

/-- A written field is read back, if no offset has too many digits. -/
theorem Takes.written (hs : s.Holds Params.Valid LayerProps.Valid false)
    (hoffsets : s.Holds (fun _ _ => True) LayerProps.Printable false) (f : Field) :
    s.Takes f (s.get f) := by
  by_cases hf : f = .layers
  · subst hf
    show (s.layers.map fun ls => Value.list (writeLayers ls)).map checkLayers = _
    cases hls : s.layers with
    | none => rfl
    | some ls =>
        show some (checkLayers (.list (writeLayers ls))) = some (pure (some ls))
        rw [checkLayers, checkItems_write (fun _ h => h) ls 0 (hs.layers hls) (hoffsets.layers hls),
          map_pure]
  · rw [takes_iff hf, get_eq_params hf]
    cases hv : s.params.get f with
    | none => rfl
    | some v => rw [Option.map_some, (Params.convert_get hs.params.rotation hv).2, Option.map_some]

end State

/-- A written layer carries its id, and so do those on top of it. -/
theorem Layer.not_nameless_write (l : Layer) : ¬ l.write.Nameless := by
  suffices h : ∀ v : Value, v.Nameless → ∀ l : Layer, l.write ≠ v from fun hl => h _ hl l rfl
  intro v hv
  induction hv with
  | here id =>
      rintro ⟨p, _ | s⟩ hl
      · rw [← Value.object.inj hl] at id
        cases id
      · rw [← Value.object.inj hl] at id
        cases id
  | above settings layers item inside ih =>
      rintro ⟨p, _ | s⟩ hl
      · rw [← Value.object.inj hl] at settings
        cases settings
      · rw [← Value.object.inj hl] at settings
        have hstate : s.write = .object _ := Option.some.inj settings
        rw [State.write_eq] at hstate
        rw [← Value.object.inj hstate,
          show "layers" = Field.key .layers from rfl, State.lookup_entries Field.key_inj] at layers
        obtain ⟨ls, -, hls⟩ := Option.map_eq_some_iff.mp layers
        rw [← Value.list.inj hls, writeLayers_eq_map] at item
        obtain ⟨k, -, hk⟩ := List.mem_map.mp item
        exact ih k hk

mutual

/-- A tree in which no offset has too many digits. -/
theorem State.holds_printable (s : State) (inLayer : Bool) (h : s.hasPrintableOffsets = true) :
    s.Holds (fun _ _ => True) LayerProps.Printable inLayer := by
  obtain ⟨p, _ | ls⟩ := s
  · trivial
  · exact ⟨trivial, layersHold_printable ls h⟩

theorem layersHold_printable (ls : List Layer) (h : havePrintableOffsets ls = true) :
    layersHold (fun _ _ => True) LayerProps.Printable ls := by
  cases ls with
  | nil => trivial
  | cons l ls =>
      obtain ⟨hl, hls⟩ := Bool.and_eq_true_iff.mp h
      exact ⟨Layer.holds_printable l hl, layersHold_printable ls hls⟩

theorem Layer.holds_printable (l : Layer) (h : l.hasPrintableOffsets = true) :
    l.Holds (fun _ _ => True) LayerProps.Printable := by
  obtain ⟨p, _ | s⟩ := l
  · exact Bool.and_eq_true_iff.mp h
  · obtain ⟨hp, hs⟩ := Bool.and_eq_true_iff.mp h
    exact ⟨Bool.and_eq_true_iff.mp hp, State.holds_printable s true hs⟩

end

/-! ## Changes among the entries -/

namespace Entries

theorem keys_erase (key : String) (es : Entries) :
    keys (erase key es) = List.erase (keys es) key := by
  induction es with
  | nil => rfl
  | cons e es ih =>
      obtain ⟨j, w⟩ := e
      show keys (erase key ((j, w) :: es)) = List.erase (j :: keys es) key
      rw [erase, List.erase_cons]
      by_cases hj : j = key
      · rw [if_pos hj, if_pos (beq_iff_eq.mpr hj)]
      · rw [if_neg hj, if_neg fun h => hj (beq_iff_eq.mp h), ← ih]
        rfl

theorem lookup_of_notMem_keys {key : String} {es : Entries} (h : key ∉ es.keys) :
    es.lookup key = none := by
  induction es with
  | nil => rfl
  | cons e es ih =>
      obtain ⟨j, w⟩ := e
      have hj : j ≠ key := fun hj => h (hj ▸ List.mem_cons_self)
      exact (if_neg hj).trans (ih fun hmem => h (List.mem_cons_of_mem _ hmem))

theorem lookup_erase_self {key : String} {es : Entries} (h : es.keys.Nodup) :
    (es.erase key).lookup key = none := by
  refine lookup_of_notMem_keys ?_
  rw [keys_erase]
  exact fun hmem => (List.Nodup.mem_erase_iff h).mp hmem |>.1 rfl

end Entries

namespace Changes

/-- Whether changes name every field at most once, and give layers that carry ids. -/
structure Proper (cs : Changes) : Prop where
  nodup : (cs.map (·.1)).Nodup
  named : ∀ v, cs.find? .layers = some v → ¬ v.ListsNameless

/-- Changes with later ones in place of those of the same fields. -/
def overriddenBy (cs later : Changes) : Changes := later.foldl (fun cs c => cs.put c.1 c.2) cs

theorem find?_of_notMem {cs : Changes} {f : Field} (h : f ∉ cs.map (·.1)) : cs.find? f = none :=
  find?_eq_none.mpr fun c hc hf => h (List.mem_map.mpr ⟨c, hc, hf⟩)

theorem find?_put (cs : Changes) (f g : Field) (v : Value) :
    (cs.put f v).find? g = if f = g then some v else cs.find? g := by
  induction cs with
  | nil => rfl
  | cons c cs ih =>
      obtain ⟨k, w⟩ := c
      rw [put]
      split
      · rename_i hk
        rw [find?, find?, hk]
        split <;> rfl
      · rename_i hk
        rw [find?, find?, ih]
        split
        · rename_i hg
          rw [if_neg fun h => hk (hg.trans h.symm)]
        · rfl

/-- Later changes count, and elsewhere the earlier ones. -/
theorem find?_overriddenBy {later : Changes} (h : (later.map (·.1)).Nodup) (cs : Changes)
    (f : Field) :
    (cs.overriddenBy later).find? f = (later.find? f).or (cs.find? f) := by
  induction later generalizing cs with
  | nil => rfl
  | cons c later ih =>
      obtain ⟨g, v⟩ := c
      obtain ⟨hg, hlater⟩ := List.nodup_cons.mp h
      rw [overriddenBy, List.foldl_cons]
      refine (ih hlater (cs.put g v)).trans ?_
      rw [find?_put, find?]
      split
      · rename_i hgf
        rw [find?_of_notMem (hgf ▸ hg)]
        rfl
      · rfl

theorem nodup_put {cs : Changes} (h : (cs.map (·.1)).Nodup) (f : Field) (v : Value) :
    ((cs.put f v).map (·.1)).Nodup := by
  induction cs with
  | nil => exact List.nodup_singleton f
  | cons c cs ih =>
      obtain ⟨k, w⟩ := c
      obtain ⟨hk, hcs⟩ := List.nodup_cons.mp h
      rw [put]
      split
      · exact h
      · rename_i hne
        refine List.nodup_cons.mpr ⟨fun hmem => ?_, ih hcs⟩
        obtain ⟨c, hc, rfl⟩ := List.mem_map.mp hmem
        rcases mem_put hc with rfl | hc
        · exact hne rfl
        · exact hk (List.mem_map.mpr ⟨c, hc, rfl⟩)

theorem nodup_overriddenBy {cs : Changes} (h : (cs.map (·.1)).Nodup) (later : Changes) :
    ((cs.overriddenBy later).map (·.1)).Nodup := by
  induction later generalizing cs with
  | nil => exact h
  | cons c later ih => exact ih (nodup_put h c.1 c.2)

theorem Proper.overriddenBy {cs later : Changes} (hcs : cs.Proper) (hlater : later.Proper) :
    (cs.overriddenBy later).Proper := by
  refine ⟨nodup_overriddenBy hcs.nodup later, fun v hv => ?_⟩
  rw [find?_overriddenBy hlater.nodup] at hv
  cases hfind : later.find? .layers with
  | none =>
      rw [hfind] at hv
      exact hcs.named v hv
  | some w =>
      rw [hfind] at hv
      exact hlater.named v (hfind.trans hv)

/-- A changed field has its new value among the entries, and no entry if that is null. -/
theorem lookup_apply_of_find? {cs : Changes} {es : Entries} {f : Field} {v : Value}
    (hcs : (cs.map (·.1)).Nodup) (hes : es.keys.Nodup) (h : cs.find? f = some v) :
    (cs.apply es).lookup f.spelled = (some v).filter fun v => !v.isNull := by
  induction cs generalizing es with
  | nil => cases h
  | cons c cs ih =>
      obtain ⟨g, w⟩ := c
      obtain ⟨hg, hcs⟩ := List.nodup_cons.mp hcs
      have hsame : (some v).filter (fun v => !v.isNull) = if v.isNull then none else some v := by
        cases hnull : v.isNull <;> simp [hnull]
      rw [apply, List.foldl_cons]
      rw [find?] at h
      by_cases hgf : g = f
      · obtain rfl : w = v := Option.some.inj ((if_pos hgf).symm.trans h)
        subst hgf
        -- No later change is about the field.
        have hothers : ∀ c ∈ cs, g.spelled ≠ c.1.spelled := fun c hc heq =>
          hg (List.mem_map.mpr ⟨c, hc, (Field.spelled_inj _ _ heq).symm⟩)
        refine (lookup_apply_of_ne hothers _).trans ?_
        rw [hsame]
        simp only
        split
        · exact Entries.lookup_erase_self hes
        · exact Entries.lookup_put_self ..
      · refine ih hcs ?_ ((if_neg hgf).symm.trans h)
        simp only
        split
        · rw [Entries.keys_erase]
          exact hes.erase _
        · exact Entries.nodup_put hes

end Changes

/-! ## Merging -/

namespace State

variable {s t r : State} {u v : Changes} {f : Field}

theorem get_ne_null {w : Value} (h : s.get f = some w) : w.isNull = false := by
  by_cases hf : f = .layers
  · subst hf
    obtain ⟨ls, -, rfl⟩ := Option.map_eq_some_iff.mp h
    rfl
  · rw [get_eq_params hf] at h
    obtain ⟨n, rfl⟩ | ⟨x, rfl⟩ | ⟨b, rfl⟩ | ⟨t, rfl⟩ | ⟨d, rfl⟩ := Params.get_cases h <;> rfl

/-- The entries that are read when changes are merged. -/
theorem lookup_merged (hu : (u.map (·.1)).Nodup) (f : Field) :
    Entries.lookup f.spelled (u.apply (s.entries Field.spelled)) =
      match u.find? f with
      | none => s.get f
      | some w => (some w).filter fun w => !w.isNull := by
  cases hfind : u.find? f with
  | none =>
      have hother : ∀ c ∈ u, f.spelled ≠ c.1.spelled := fun c hc heq =>
        Changes.find?_eq_none.mp hfind c hc (Field.spelled_inj _ _ heq).symm
      rw [Changes.lookup_apply_of_ne hother]
      exact lookup_entries Field.spelled_inj s f
  | some w =>
      exact Changes.lookup_apply_of_find? hu
        (Entries.nodup_keys_filterMap Field.spelled_inj s.get) hfind

/-- Every field is read from its change, and from the state where there is none. -/
theorem setting_merged (hu : (u.map (·.1)).Nodup) (f : Field) :
    Entries.setting f (u.apply (s.entries Field.spelled)) =
      match u.find? f with
      | none => s.get f
      | some w => (some w).filter fun w => !w.isNull := by
  -- The first spelling is used only where it is the second one as well.
  have hfirst : f.key ≠ f.spelled →
      Entries.lookup f.key (u.apply (s.entries Field.spelled)) = none := by
    intro hne
    have hother : ∀ g : Field, g.spelled ≠ f.key := by
      intro g hg
      have hfield := Field.ofKey?_spelled g
      rw [hg, Field.ofKey?_key] at hfield
      cases hfield
      exact hne hg.symm
    rw [Changes.lookup_apply_of_ne fun c _ => (hother c.1).symm]
    exact Entries.lookup_filterMap_of_ne hother _ _
  have hlookup := lookup_merged (s := s) hu f
  have hvalue : (Entries.spelled? f.key f.spelled (u.apply (s.entries Field.spelled))).map (·.2) =
      Entries.lookup f.spelled (u.apply (s.entries Field.spelled)) := by
    unfold Entries.spelled?
    by_cases hkey : f.key = f.spelled
    · rw [hkey]
      cases Entries.lookup f.spelled (u.apply (s.entries Field.spelled)) <;> rfl
    · rw [hfirst hkey]
      cases Entries.lookup f.spelled (u.apply (s.entries Field.spelled)) <;> rfl
  rw [Entries.setting, hvalue, hlookup]
  cases u.find? f with
  | none =>
      cases hget : s.get f with
      | none => rfl
      | some w => exact Option.filter_some_pos (by rw [get_ne_null hget]; rfl)
  | some w =>
      show ((some w).filter fun w => !w.isNull).filter (fun w => !w.isNull) = _
      rw [Option.filter_filter]
      simp

theorem named_merged (hu : u.Proper) {w : Value}
    (hw : Entries.lookup "layers" (u.apply (s.entries Field.spelled)) = some w) :
    ¬ w.ListsNameless := by
  rw [show "layers" = Field.spelled .layers from rfl, lookup_merged hu.nodup] at hw
  cases hfind : u.find? .layers with
  | none =>
      rw [hfind] at hw
      obtain ⟨ls, -, rfl⟩ := Option.map_eq_some_iff.mp hw
      rintro ⟨vs, l, hvs, hl, hnameless⟩
      cases hvs
      rw [writeLayers_eq_map] at hl
      obtain ⟨k, -, rfl⟩ := List.mem_map.mp hl
      exact k.not_nameless_write hnameless
  | some x =>
      rw [hfind] at hw
      obtain ⟨hx, -⟩ := Option.filter_eq_some_iff.mp hw
      cases hx
      exact hu.named w hfind

/-- An accepted merge is the state that has at every field what was merged there. -/
theorem of_merged (hu : u.Proper) {n m : Nat} (h : (s.merged u).run n = (.ok t, m)) :
    s.merged u = pure t ∧ m = n ∧
      ∀ f, t.Takes f (Entries.setting f (u.apply (s.entries Field.spelled))) := by
  have hdefinite : (s.merged u).Definite :=
    State.definite_check _ false fun es layers hes hlayers =>
      named_merged hu (Value.object.inj hes ▸ hlayers)
  have htakes := State.accepts_takes fun w hw => named_merged (s := s) hu hw
  obtain ⟨hpure, rfl⟩ := hdefinite.of_run h
  exact ⟨hpure, rfl, htakes.of_run (congrArg Prod.fst h)⟩

theorem setting_single {w : Value} (hw : w ≠ .null) (f g : Field) :
    Entries.setting g [(f.key, w)] = if g = f then some w else none := by
  by_cases hg : g = f
  · subst hg
    rw [if_pos rfl]
    have hfound : Entries.spelled? g.key g.spelled [(g.key, w)] = some (g.key, w) := by
      rw [Entries.spelled?, Entries.lookup, if_pos rfl]
    exact setting_of_spelled? hw hfound
  · have hkey : f.key ≠ g.key := fun h => hg (Field.key_inj g f h.symm)
    have hspelled : f.key ≠ g.spelled := by
      intro h
      have hfield := Field.ofKey?_key f
      rw [h, Field.ofKey?_spelled] at hfield
      exact hg (Option.some.inj hfield)
    rw [if_neg hg, Entries.setting, Entries.spelled?, Entries.lookup, if_neg hkey, Entries.lookup,
      Entries.lookup, if_neg hspelled]
    rfl

/-- A document of one entry is read as a state that has only what is read of the entry. -/
theorem exists_check_single {w : Value} (hw : w ≠ .null) (ht : t.Takes f (some w)) :
    ∃ r, State.check false (.object [(f.key, w)]) = pure r ∧ t.AgreesAt f r := by
  have hself := setting_single hw f f
  rw [if_pos rfl] at hself
  by_cases hf : f = .layers
  · subst hf
    have hothers : ∀ g, g ≠ .layers →
        Option.map g.convert (Entries.setting g [(Field.layers.key, w)]) =
          Option.map pure none := by
      intro g hg
      rw [setting_single hw, if_neg hg]
      rfl
    obtain ⟨p, hp⟩ := Params.exists_read hothers
    refine ⟨⟨p, t.layers⟩, ?_, rfl⟩
    rw [State.check, hp, checkLayersIn_of_setting (o := t.layers) (by rw [hself]; exact ht)]
    rfl
  · have hsettings : ∀ g, g ≠ .layers →
        Option.map g.convert (Entries.setting g [(f.key, w)]) =
          Option.map pure (if g = f then t.params.get f else none) := by
      intro g hg
      rw [setting_single hw]
      by_cases hgf : g = f
      · subst hgf
        rw [if_pos rfl, if_pos rfl]
        exact (takes_iff hf).mp ht
      · rw [if_neg hgf, if_neg hgf]
        rfl
    obtain ⟨p, hp⟩ := Params.exists_read hsettings
    have hread := Params.accepts_settings [(f.key, w)]
    rw [hp] at hread
    have hnone : Entries.setting .layers [(f.key, w)] = none := by
      rw [setting_single hw, if_neg (Ne.symm hf)]
    refine ⟨⟨p, none⟩, ?_, (agreesAt_iff hf).mpr ?_⟩
    · rw [State.check, hp, checkLayersIn_of_setting (o := none) (by rw [hnone]; rfl)]
      rfl
    · have hfield := hread.of_pure f hf
      rw [hself] at hfield
      exact Option.map_injective Check.pure_injective (((takes_iff hf).mp ht).symm.trans hfield)

/-- What changes give a field is what their value for it is read as. -/
theorem Takes.of_change {w : Value} (hu : (u.map (·.1)).Nodup) (hfind : u.find? f = some w)
    (ht : t.Takes f (Entries.setting f (u.apply (s.entries Field.spelled)))) :
    t.Takes f ((some w).filter fun w => !w.isNull) := by
  rwa [setting_merged hu, hfind] at ht

/-- A field without a change is left. -/
theorem Takes.of_no_change (hs : s.Admissible) (hu : (u.map (·.1)).Nodup)
    (hfind : u.find? f = none)
    (ht : t.Takes f (Entries.setting f (u.apply (s.entries Field.spelled)))) :
    t.AgreesAt f s.normal := by
  rw [setting_merged hu, hfind] at ht
  exact ht.of_written (Holds.mono_props (fun _ _ => trivial) hs)

/-- Merging no changes reads back what was written. -/
theorem merged_nil (hs : s.Admissible) (hoffsets : s.hasPrintableOffsets = true) :
    s.merged [] = pure s.normal := by
  refine check_of_takes fun f => ?_
  have hprintable : s.normal.hasPrintableOffsets = true := by
    rw [hasPrintableOffsets_normal, hoffsets]
  have hwritten := Takes.written (valid_normal hs) (holds_printable _ false hprintable) f
  rw [get_normal] at hwritten
  rwa [setting_merged (u := []) List.nodup_nil]

/-- Two merges in a row are the merge of the later changes in place of the earlier ones. -/
theorem merged_overriddenBy (hu : u.Proper) (hv : v.Proper) {n n' m m' : Nat}
    (ht : (s.merged u).run n = (.ok t, n')) (hr : (t.merged v).run m = (.ok r, m')) :
    s.merged (u.overriddenBy v) = pure r := by
  have hvalid : t.Valid := valid_of_run (congrArg Prod.fst ht)
  obtain ⟨-, -, htakes⟩ := of_merged hu ht
  obtain ⟨-, -, hlater⟩ := of_merged hv hr
  refine check_of_takes fun f => ?_
  rw [setting_merged (Changes.nodup_overriddenBy hu.nodup v), Changes.find?_overriddenBy hv.nodup]
  cases hfind : v.find? f with
  | some w => exact (hlater f).of_change hv.nodup hfind
  | none =>
      have hleft := (hlater f).of_no_change (Valid.admissible hvalid) hv.nodup hfind
      rw [Holds.normal_eq t false hvalid] at hleft
      have htake := (htakes f).congr hleft
      rwa [setting_merged hu.nodup] at htake

/-- **Merging is a pointwise override.**  Let changes name each field once and give layers that
carry ids.  Where merging them into a tree is accepted it issues no id, and every field of the
result is told by its own change: it is unset if the change is null, what the new value alone is
read as if there is one, and where nothing changes the field of the tree, with all layers below as
they were.  Positions that no reader gives are in normal form then; a tree that was read is its own
normal form.  Hence merging no changes gives the tree itself, and is accepted unless an offset has
too many digits; and of two merges in a row the result is that of the first changes overridden by
the second ones, which is accepted then. -/
theorem merged_overrides {s : State} (hs : s.Admissible) :
    (∀ (u : Changes) n m t, u.Proper → (s.merged u).run n = (.ok t, m) →
      m = n ∧ ∀ f,
        (u.find? f = none → t.AgreesAt f s.normal) ∧
        (u.find? f = some .null → t.AgreesAt f .empty) ∧
        ∀ w, w ≠ .null → u.find? f = some w →
          ∃ r, State.check false (.object [(f.key, w)]) = pure r ∧ t.AgreesAt f r) ∧
    (s.Valid → s.normal = s) ∧
    (∀ n m t, (s.merged []).run n = (.ok t, m) → t = s.normal) ∧
    (s.hasPrintableOffsets = true → s.merged [] = pure s.normal) ∧
    ∀ (u v : Changes) n n' m m' t r, u.Proper → v.Proper → (s.merged u).run n = (.ok t, n') →
      (t.merged v).run m = (.ok r, m') → s.merged (u.overriddenBy v) = pure r := by
  have hempty : ∀ f, State.empty.Takes f none := by
    intro f
    cases f <;> rfl
  refine ⟨fun u n m t hu h => ?_, Holds.normal_eq s false, fun n m t h => ?_, merged_nil hs,
    fun u v n n' m m' t r hu hv ht hr => merged_overriddenBy hu hv ht hr⟩
  · obtain ⟨-, rfl, htakes⟩ := of_merged hu h
    refine ⟨rfl, fun f =>
      ⟨(htakes f).of_no_change hs hu.nodup, fun hnull => ?_, fun w hw hsome => ?_⟩⟩
    · have htake := (htakes f).of_change hu.nodup hnull
      exact htake.agreesAt (hempty f)
    · have htake := (htakes f).of_change hu.nodup hsome
      have hpresent : (some w).filter (fun w => !w.isNull) = some w := by
        cases w <;> first | rfl | exact absurd rfl hw
      rw [hpresent] at htake
      exact exists_check_single hw htake
  · have hproper : Changes.Proper [] := ⟨List.nodup_nil, fun _ h => nomatch h⟩
    obtain ⟨-, -, htakes⟩ := of_merged hproper h
    exact eq_of_agreesAt fun f => (htakes f).of_no_change hs hproper.nodup rfl

/-- A tree in which a layer has another one on top of it. -/
def stacked : State :=
  ⟨{ width := some 40, height := some 30 }, some [
    ⟨{ id := "low", imagePath := "low.png", originalDimensions := ⟨2, 3⟩, x := .aligned .left 5 },
      some ⟨{}, some [
        ⟨{ id := "top", imagePath := "top.png", originalDimensions := ⟨1, 1⟩ }, none⟩]⟩⟩]⟩

/-- Another width, as a text, and no height. -/
def restretch : Changes := [(.width, .text "12"), (.height, .null)]

/-- The tree with those changes. -/
def restretched : State := ⟨{ width := some 12 }, stacked.layers⟩

set_option maxRecDepth 4000 in
theorem merged_overrides_stacked :
    (stacked.merged restretch).run 0 = (.ok restretched, 0) ∧
      restretched.AgreesAt .layers stacked ∧ restretched.AgreesAt .height .empty ∧
      (∃ r, State.check false (.object [("width", .text "12")]) = pure r ∧
        restretched.AgreesAt .width r) ∧
      stacked.merged [] = pure stacked := by
  have hparams : ∀ p : Params, p.rotation = none → p.imagePath = none →
      p.originalDimensions = none → ∀ inLayer, p.Valid inLayer :=
    fun p hrotation himage hsize _ => ⟨by simp [hrotation], fun _ => ⟨himage, hsize⟩⟩
  have hvalid : stacked.Valid :=
    ⟨hparams _ rfl rfl rfl _, ⟨⟨trivial, trivial, by decide⟩, hparams _ rfl rfl rfl _,
      ⟨trivial, trivial, by decide⟩, trivial⟩, trivial⟩
  have hrun : (stacked.merged restretch).run 0 = (.ok restretched, 0) := by
    cbv
  have hproper : Changes.Proper restretch := ⟨by decide, fun _ h => by cases h⟩
  obtain ⟨hfields, hnormal, -, hnil, -⟩ := merged_overrides hvalid.admissible
  obtain ⟨-, hat⟩ := hfields restretch 0 0 restretched hproper hrun
  have hlayers := (hat .layers).1 rfl
  rw [hnormal hvalid] at hlayers hnil
  refine ⟨hrun, hlayers, (hat .height).2.1 rfl, (hat .width).2.2 (.text "12") ?_ rfl, hnil ?_⟩
  · simp
  · decide

end State

end Retouch
