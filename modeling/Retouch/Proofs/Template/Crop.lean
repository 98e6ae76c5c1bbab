/-
  The crop of a template that is applied.

  Before the settings of a template are read, import takes out the keys of a crop, in the first of
  the two spellings that a state is read in.  Without them no old crop is brought forward either,
  so a crop in that form never reaches the state.  The keys in the second spelling stay.  What is
  read there is not dropped later: no round of a lenient reading ignores the key of a value that can
  be converted (`notMem_badKeys`, `State.get_of_readLenient`).  Hence a field of the crop is set
  exactly if the template gives it in the second spelling (`Template.import_crop`).
-/
import Retouch.Proofs.State.Fieldwise
import Retouch.Proofs.State.Printable
import Retouch.Proofs.Template.Malformed
import Retouch.Proofs.Template.Problems

namespace Retouch

open Check (Accepts)

/-! ## Values that can be converted -/

/-- Null is converted to nothing. -/
theorem Field.convert_null {f : Field} (hf : f ≠ .layers) (v : Value) :
    f.convert .null ≠ pure v := by
  intro h
  cases f with
  | layers => exact hf rfl
  | _ => cases congrFun h ⟨0, []⟩

/-- Whether entries have at the second spelling of a field what is converted to a value. -/
def Entries.Spells (es : Entries) (f : Field) (v : Value) : Prop :=
  ∃ u, es.lookup f.spelled = some u ∧ f.convert u = pure v

/-- Where the first spelling of a field is not there, the second one is its setting. -/
theorem Entries.spells_iff {es : Entries} {f : Field} (hf : f ≠ .layers)
    (hkey : es.lookup f.key = none) {v : Value} :
    es.Spells f v ↔ ∃ u, es.setting f = some u ∧ f.convert u = pure v := by
  have hsetting : es.setting f = (es.lookup f.spelled).filter fun u => !u.isNull := by
    unfold setting spelled?
    rw [hkey]
    cases es.lookup f.spelled <;> rfl
  unfold Spells
  rw [hsetting]
  refine exists_congr fun u => and_congr_left fun hu => ?_
  rw [Option.filter_eq_some_iff]
  refine (and_iff_left ?_).symm
  cases u with
  | null => exact absurd hu (Field.convert_null hf v)
  | _ => rfl

/-! ## Reading leniently -/

section

variable {es : Entries} {f : Field}

theorem Entries.edgeToExtent_of_near_none {far near extent : String}
    (h : es.lookup near = none) : es.edgeToExtent far near extent = .ok es := by
  unfold edgeToExtent
  rw [h]
  cases es.lookup far <;> rfl

/-- Without a near edge of a crop the entries are in the present form already. -/
theorem Entries.Uncropped.ofEntries_eq (h : es.Uncropped) :
    State.ofEntries es = State.check false (.object es) := by
  have hmigrate : es.migrate = .ok es := by
    unfold migrate
    rw [edgeToExtent_of_near_none h.left]
    exact edgeToExtent_of_near_none h.top
  rw [State.ofEntries, hmigrate]
  rfl

/-- Whether settings are what the values of the fields are converted to. -/
def Params.ReadFrom (es : Entries) (p : Params) : Prop :=
  ∀ f, f ≠ .layers → (es.setting f).map f.convert = (p.get f).map pure

theorem Params.ReadFrom.get_eq_some_iff {p : Params} (h : p.ReadFrom es) (hf : f ≠ .layers)
    {v : Value} : p.get f = some v ↔ ∃ u, es.setting f = some u ∧ f.convert u = pure v := by
  rw [← (Option.map_injective Check.pure_injective).eq_iff, ← h f hf]
  exact Option.map_eq_some_iff

/-- The settings of an accepted state are so, whatever the layers are. -/
theorem State.accepts_readFrom (es : Entries) :
    (State.check false (.object es)).Accepts fun s => s.params.ReadFrom es := by
  rw [State.check]
  refine Accepts.bind (Params.accepts_settings es) fun p => ?_
  exact Accepts.bind_any (follows_checkLayersIn es) fun layers => .pure fun hp => hp

/-- A key is not ignored if what is read there can be converted. -/
theorem notMem_badKeys (hf : f ≠ .layers) {key : String} {u v : Value}
    (hspelled : es.spelled? f.key f.spelled = some (key, u)) (hnull : u ≠ .null)
    (hv : f.convert u = pure v) {problems : List Problem} {n m : Nat}
    (hrun : (State.check false (.object es)).run n = (.error (.invalid problems), m)) :
    key ∉ badKeys es problems := by
  intro hmem
  obtain ⟨g, w, hw, hfails⟩ := of_mem_badKeys hrun hmem
  obtain rfl : g = f :=
    Option.some.inj ((ofKey?_of_spelled? hw).symm.trans (ofKey?_of_spelled? hspelled))
  obtain ⟨-, rfl⟩ := Prod.mk.inj (Option.some.inj (hw.symm.trans hspelled))
  refine hfails ((Field.passes_reading_iff hf hnull).mpr ?_)
  rw [hv]
  exact .pure v

/-- Ignoring the keys that problems are at leaves what a second spelling is converted to. -/
theorem Entries.spells_filter_badKeys (hf : f ≠ .layers) (hkey : es.lookup f.key = none)
    {problems : List Problem} {n m : Nat}
    (hrun : (State.check false (.object es)).run n = (.error (.invalid problems), m)) {v : Value} :
    Entries.Spells (es.filter fun e => !(badKeys es problems).contains e.1) f v ↔
      es.Spells f v := by
  unfold Spells
  rw [lookup_filter_keys (fun k => !(badKeys es problems).contains k)]
  constructor
  · rintro ⟨u, hu, hv⟩
    split at hu
    · exact ⟨u, hu, hv⟩
    · cases hu
  · rintro ⟨u, hu, hv⟩
    have hspelled : es.spelled? f.key f.spelled = some (f.spelled, u) :=
      spelled?_eq_some_iff.mpr ⟨hu, .inr ⟨rfl, hkey⟩⟩
    have hnull : u ≠ .null := by
      rintro rfl
      exact Field.convert_null hf v hv
    have hgood := notMem_badKeys hf hspelled hnull hv hrun
    exact ⟨u, by rw [if_pos (by simpa using hgood), hu], hv⟩

/-- A lenient reading gives a field, if its first spelling is not there, exactly what its second
spelling is converted to. -/
theorem State.get_of_readLenient (hf : f ≠ .layers) (hcrop : es.Uncropped)
    (hkey : es.lookup f.key = none) {fuel issued n : Nat} {ignored keys : List String} {s : State}
    (h : readLenient fuel es ignored issued = (.ok (some s, keys), n)) (v : Value) :
    s.params.get f = some v ↔ es.Spells f v := by
  -- Each round leaves keys out, but none whose value can be converted.
  induction fuel generalizing es ignored issued with
  | zero => cases h
  | succ fuel ih =>
      rw [readLenient, hcrop.ofEntries_eq] at h
      split at h
      · rename_i t m hrun
        cases h
        have hsettings := (State.accepts_readFrom es).of_run (congrArg Prod.fst hrun)
        rw [Entries.spells_iff hf hkey]
        exact hsettings.get_eq_some_iff hf
      · rename_i problems m hrun
        extract_lets bad at h
        split at h
        · cases h
        · have hrest : Entries.lookup f.key (es.filter fun e => !bad.contains e.1) = none := by
            rw [lookup_filter_keys (fun k => !bad.contains k), hkey, ite_self]
          exact (ih (hcrop.filter fun k => !bad.contains k) hrest h).trans
            (Entries.spells_filter_badKeys hf hkey hrun)
      · cases h

end

/-! ## The crop -/

/-- The fields of a crop. -/
def cropFields : List Field := [.cropLeft, .cropTop, .cropWidth, .cropHeight]

theorem cropKeys_eq : cropKeys = cropFields.map Field.key := rfl

section

variable {f : Field} (hf : f ∈ cropFields) (ts : Entries)

include hf

theorem ne_layers_of_mem_cropFields : f ≠ .layers := by
  rintro rfl
  exact absurd hf (by decide)

/-- The first spelling of a crop is not loaded. -/
theorem Entries.lookup_key_loadable : ts.loadable.lookup f.key = none := by
  have hlayers : f.key ≠ "layers" := by
    revert f
    decide
  rw [loadable, lookup_usableLayers_of_ne hlayers, taken,
    lookup_filter_keys (fun k => !cropKeys.contains k)]
  exact if_neg (by simpa [cropKeys_eq] using ⟨f, hf, rfl⟩)

/-- The second one is. -/
theorem Entries.lookup_spelled_loadable : ts.loadable.lookup f.spelled = ts.lookup f.spelled := by
  have hlayers : f.spelled ≠ "layers" ∧ (!cropKeys.contains f.spelled) = true := by
    revert f
    decide
  rw [loadable, lookup_usableLayers_of_ne hlayers.1, taken,
    lookup_filter_keys (fun k => !cropKeys.contains k), if_pos hlayers.2]

/-- Applying a template to an image changes no crop. -/
theorem Template.get_applied_crop (t : Template) (s : State) (current : Size) :
    (t.applied s current).params.get f = s.params.get f := by
  have hcases : f = .cropLeft ∨ f = .cropTop ∨ f = .cropWidth ∨ f = .cropHeight := by
    simpa [cropFields] using hf
  unfold applied
  extract_lets portable size
  clear_value size
  cases size with
  | none => rcases hcases with rfl | rfl | rfl | rfl <;> rfl
  | some d => rcases hcases with rfl | rfl | rfl | rfl <;> rfl

end

/-- An import with an outcome has read the settings that can be loaded. -/
theorem exists_read_of_importTemplate {text : String} {current : Size} {settings : Settings}
    {issued : Nat} {r : ImportResult} {t : Template} {s : State}
    (h : (importTemplate text current settings issued).1 = .ok r)
    (hout : r.outcome = some (t, s)) :
    ∃ (es ts : Entries) (read : State) (keys : List String) (n : Nat),
      readDocument text = .ok es ∧ es.lookup "transformations" = some (.object ts) ∧
      readLenient (ts.loadable.length + 1) ts.loadable [] issued = (.ok (some read, keys), n) ∧
      s = t.applied read current := by
  rcases readDocument_cases text with ⟨w, hdocument, -⟩ | ⟨es, ts, hdocument, hts⟩
  · rw [importTemplate, hdocument] at h
    cases h
    cases hout
  · rw [importTemplate, hdocument] at h
    simp only [hts] at h
    split at h
    · cases h
    · split at h
      · cases h
      · rename_i state keys n hread
        split at h
        · cases h
          cases hout
        · rename_i read
          refine ⟨es, ts, read, keys, n, hdocument, hts, hread, ?_⟩
          cases h
          unfold importDocument at hout
          extract_lets around at hout
          split at hout
          · cases hout
            rfl
          · cases hout
          · cases hout

namespace Template

/-- A field of the crop goes through a template exactly as what the settings of the template have
at its second spelling is converted to.  What they have at its first spelling, and the far edges of
an old crop, never reach the state. -/
theorem import_crop {text : String} {current : Size} {settings : Settings} {issued : Nat}
    {r : ImportResult} {t : Template} {s : State}
    (h : (importTemplate text current settings issued).1 = .ok r)
    (hout : r.outcome = some (t, s)) :
    ∃ es ts : Entries, readDocument text = .ok es ∧
      es.lookup "transformations" = some (.object ts) ∧
      ∀ f ∈ cropFields, ∀ v, s.params.get f = some v ↔ ts.Spells f v := by
  obtain ⟨es, ts, read, keys, n, hdocument, hts, hread, rfl⟩ := exists_read_of_importTemplate h hout
  refine ⟨es, ts, hdocument, hts, fun f hf v => ?_⟩
  rw [get_applied_crop hf, State.get_of_readLenient (ne_layers_of_mem_cropFields hf)
    ts.uncropped_loadable (ts.lookup_key_loadable hf) hread, Entries.Spells,
    ts.lookup_spelled_loadable hf, Entries.Spells]

/-- Settings with a crop, one key of which is in the first spelling. -/
def cropped : Entries :=
  [("crop_left", .int 0), ("cropTop", .int 5), ("crop_width", .int 10), ("crop_height", .int 20)]

/-- A document with these settings. -/
def croppedDocument : Entries := [("version", .text "1.0"), ("transformations", .object cropped)]

theorem readDocument_cropped :
    readDocument ((Value.object croppedDocument).compact .interchange) = .ok croppedDocument := by
  have hint : ∀ n : Int, (Value.int n).isPrintable = true → (Value.int n).Proper :=
    fun n => Value.proper_int_iff.mp
  have hproper : (Value.object croppedDocument).Proper :=
    ⟨by decide, trivial, ⟨by decide, hint 0 (by decide), hint 5 (by decide), hint 10 (by decide),
      hint 20 (by decide), trivial⟩, trivial⟩
  rw [readDocument, Value.parse_compact hproper]
  rfl

/-- Three fields of that crop reach the state. -/
theorem import_crop_cropped : ∃ r t s,
    (importTemplate ((Value.object croppedDocument).compact .interchange) ⟨40, 30⟩ {} 0).1 =
      .ok r ∧ r.outcome = some (t, s) ∧ s.params.get .cropLeft = some (.int 0) ∧
      s.params.get .cropTop = none ∧ s.params.get .cropWidth = some (.int 10) ∧
      s.params.get .cropHeight = some (.int 20) := by
  have hread : readLenient (cropped.loadable.length + 1) cropped.loadable [] 0 =
      (.ok (some ⟨{ cropLeft := some 0, cropWidth := some 10, cropHeight := some 20 }, none⟩, []),
        0) := by
    cbv
  have himport : ∃ r t s,
      (importTemplate ((Value.object croppedDocument).compact .interchange) ⟨40, 30⟩ {} 0).1 =
        .ok r ∧ r.outcome = some (t, s) := by
    have hts : croppedDocument.lookup "transformations" = some (.object cropped) := rfl
    have hversion : croppedDocument.lookup "version" = some (.text "1.0") := rfl
    rw [importTemplate, readDocument_cropped]
    simp only [Entries.loadable, Entries.taken] at hread
    simp only [hts, hversion, Value.ofOption, Option.getD_some, hread]
    exact ⟨_, _, _, rfl, rfl⟩
  obtain ⟨r, t, s, h, hout⟩ := himport
  obtain ⟨es, ts, hdocument, hts, hcrop⟩ := import_crop h hout
  obtain rfl := Except.ok.inj (readDocument_cropped.symm.trans hdocument)
  obtain rfl := Value.object.inj (Option.some.inj hts)
  refine ⟨r, t, s, h, hout, ?_, ?_, ?_, ?_⟩
  · exact (hcrop .cropLeft (by decide) _).mpr ⟨_, rfl, rfl⟩
  · refine Option.eq_none_iff_forall_ne_some.mpr fun v hv => ?_
    obtain ⟨u, hu, -⟩ := (hcrop .cropTop (by decide) v).mp hv
    cases hu
  · exact (hcrop .cropWidth (by decide) _).mpr ⟨_, rfl, rfl⟩
  · exact (hcrop .cropHeight (by decide) _).mpr ⟨_, rfl, rfl⟩

end Template

end Retouch
