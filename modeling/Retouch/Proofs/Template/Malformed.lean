/-
  What malformed documents do to their readers.

  Fragments, templates to import and stored templates are read by checks, and what a check notes is
  told as no state, as a warning or as a fault of the template.  A stray failure is told as none of
  these and leaves the reader.  When that happens is known exactly: at a rotation that cannot be
  tried, among the entries or in the settings of a layer that is looked into, and for a fragment at
  an old crop of which nothing comes; in an import also at a version that is no proper text
  (`malformed_ends`).  Everything else a reader contains, and an import that comes to nothing says
  so by a warning.
-/
import Retouch.Fragment
import Retouch.Proofs.State.Stray
import Retouch.Proofs.Template.Layers
import Retouch.Template.Library

namespace Retouch

open Check (Steady Breaks)

/-! ## Layers without image -/

/-- What import makes of the value that stands for layers. -/
def Value.usableList : Value → Value
  | .list vs => .list (usableItems vs).1
  | v => v

/-- What import makes of the value that stands for the settings of a layer. -/
def Value.usableObject : Value → Value
  | .object ts => .object (usableLayers ts).1
  | v => v

/-- The layers that entries give are gone through. -/
theorem lookup_usableLayers (es : Entries) :
    Entries.lookup "layers" (usableLayers es).1 = (es.lookup "layers").map Value.usableList := by
  rcases usableLayers_cases es with ⟨vs, hvs, heq⟩ | ⟨hnone, heq⟩
  · rw [heq, hvs, Entries.lookup_put_self]
    rfl
  · rw [heq]
    cases h : es.lookup "layers" with
    | none => rfl
    | some v =>
        cases v with
        | list vs => exact absurd h (hnone vs)
        | _ => rfl

/-- So are the settings of a layer. -/
theorem lookup_usableTransforms (es : Entries) :
    Entries.lookup "transforms" (usableTransforms es).1 =
      (es.lookup "transforms").map Value.usableObject := by
  rcases usableTransforms_cases es with ⟨ts, hts, heq⟩ | ⟨hnone, heq⟩
  · rw [heq, hts, Entries.lookup_put_self]
    rfl
  · rw [heq]
    cases h : es.lookup "transforms" with
    | none => rfl
    | some v =>
        cases v with
        | object ts => exact absurd h (hnone ts)
        | _ => rfl

/-- A list of layers comes of a list of layers. -/
theorem exists_list_of_usableLayers {es : Entries} {ws : List Value}
    (h : Entries.lookup "layers" (usableLayers es).1 = some (.list ws)) :
    ∃ vs, es.lookup "layers" = some (.list vs) ∧ ws = (usableItems vs).1 := by
  rw [lookup_usableLayers] at h
  obtain ⟨v, hv, hlist⟩ := Option.map_eq_some_iff.mp h
  cases v with
  | list vs =>
      cases hlist
      exact ⟨vs, hv, rfl⟩
  | _ => cases hlist

/-- Settings come of settings. -/
theorem exists_object_of_usableTransforms {es us : Entries}
    (h : Entries.lookup "transforms" (usableTransforms es).1 = some (.object us)) :
    ∃ ts : Entries, es.lookup "transforms" = some (.object ts) ∧ us = (usableLayers ts).1 := by
  rw [lookup_usableTransforms] at h
  obtain ⟨v, hv, hobject⟩ := Option.map_eq_some_iff.mp h
  cases v with
  | object ts =>
      cases hobject
      exact ⟨ts, hv, rfl⟩
  | _ => cases hobject

/-- Whether a layer is looked into on import. -/
def usableLayer (v : Value) : Prop := v.isUsableLayer = true

/-- What is kept are the usable layers, each without unusable ones on it. -/
theorem mem_usableItems {l : Value} {vs : List Value} :
    l ∈ (usableItems vs).1 ↔
      ∃ es, .object es ∈ vs ∧ usableLayer (.object es) ∧ l = .object (usableTransforms es).1 := by
  simp only [usableItems_fst, List.mem_map, List.mem_filter, usableLayer]
  constructor
  · rintro ⟨v, ⟨hv, husable⟩, rfl⟩
    obtain ⟨es, rfl⟩ := Value.exists_of_isUsableLayer husable
    exact ⟨es, hv, husable, rfl⟩
  · rintro ⟨es, hes, husable, rfl⟩
    exact ⟨.object es, ⟨hes, husable⟩, rfl⟩

/-- Skipping layers takes away the rotations in them and no others. -/
theorem stops_usableLayers (es : Entries) :
    Entries.Stops anyLayer (usableLayers es).1 ↔ es.Stops usableLayer := by
  have hturn : ∀ es : Entries, Entries.StopTurn (usableLayers es).1 ↔ es.StopTurn := by
    intro es
    unfold Entries.StopTurn
    rw [lookup_usableLayers_of_ne (by decide)]
  -- By induction on the way to the rotation: each layer on it was kept, so it is a usable one,
  -- and what is left of its settings is again what import makes of them.
  constructor
  · intro h
    obtain ⟨kept, hkept⟩ : ∃ kept, (usableLayers es).1 = kept := ⟨_, rfl⟩
    rw [hkept] at h
    induction h generalizing es with
    | turn turn => exact .turn ((hturn es).mp (hkept ▸ turn))
    | layer layers item _ settings _ ih =>
        obtain ⟨vs, hvs, rfl⟩ := exists_list_of_usableLayers (hkept ▸ layers)
        obtain ⟨ts, hts, husable, heq⟩ := mem_usableItems.mp item
        cases heq
        obtain ⟨fs, hfs, rfl⟩ := exists_object_of_usableTransforms settings
        exact .layer hvs hts husable hfs (ih fs rfl)
  · intro h
    induction h with
    | turn turn => exact .turn ((hturn _).mpr turn)
    | @layer es ts fs vs layers item visible settings _ ih =>
        have hlayers : Entries.lookup "layers" (usableLayers es).1 =
            some (.list (usableItems vs).1) := by
          rw [lookup_usableLayers, layers]
          rfl
        have hsettings : Entries.lookup "transforms" (usableTransforms ts).1 =
            some (.object (usableLayers fs).1) := by
          rw [lookup_usableTransforms, settings]
          rfl
        exact .layer hlayers (mem_usableItems.mpr ⟨ts, item, visible, rfl⟩) trivial hsettings ih

/-! ## Leaving keys out -/

/-- Leaving keys out leaves what is at the other keys. -/
theorem lookup_filter_keys (keep : String → Bool) (key : String) (es : Entries) :
    Entries.lookup key (es.filter fun e => keep e.1) =
      if keep key then es.lookup key else none := by
  induction es with
  | nil => simp [Entries.lookup]
  | cons e es ih =>
      obtain ⟨k, v⟩ := e
      by_cases hk : k = key
      · subst hk
        cases hkeep : keep k with
        | true => simp [hkeep, Entries.lookup]
        | false => simpa [hkeep] using ih
      · cases hkeep : keep k with
        | true => simpa [hkeep, Entries.lookup, hk] using ih
        | false => simpa [hkeep, Entries.lookup, hk] using ih

theorem Entries.Stops.of_filter {seen : Value → Prop} {es : Entries} (keep : String → Bool)
    (h : Entries.Stops seen (es.filter fun e => keep e.1)) : es.Stops seen := by
  have hsome : ∀ {key v}, Entries.lookup key (es.filter fun e => keep e.1) = some v →
      es.lookup key = some v := by
    intro key v hv
    rw [lookup_filter_keys] at hv
    split at hv
    · exact hv
    · cases hv
  rcases Entries.stops_iff.mp h with ⟨v, hv, hstops⟩ | ⟨vs, hvs, hlayer⟩
  · exact Entries.stops_iff.mpr (.inl ⟨v, hsome hv, hstops⟩)
  · exact Entries.stops_iff.mpr (.inr ⟨vs, hsome hvs, hlayer⟩)

/-- Whether entries have no near edge of a crop. -/
structure Entries.Uncropped (es : Entries) : Prop where
  left : es.lookup "cropLeft" = none
  top : es.lookup "cropTop" = none

theorem Entries.Uncropped.filter {es : Entries} (h : es.Uncropped) (keep : String → Bool) :
    Entries.Uncropped (es.filter fun e => keep e.1) := by
  constructor
  · rw [lookup_filter_keys, h.left, ite_self]
  · rw [lookup_filter_keys, h.top, ite_self]

/-- Without a near edge no old crop is brought forward. -/
theorem Entries.Uncropped.not_cropApart {es : Entries} (h : es.Uncropped) : ¬ es.CropApart := by
  rintro (⟨f, n, -, hn, -⟩ | ⟨f, n, -, hn, -⟩)
  · exact nomatch h.left.symm.trans hn
  · exact nomatch h.top.symm.trans hn

/-- The settings of a template that are taken: all but the crop. -/
def Entries.taken (ts : Entries) : Entries := ts.filter fun e => !cropKeys.contains e.1

/-- What is left when layers without image are skipped, too. -/
def Entries.loadable (ts : Entries) : Entries := (usableLayers ts.taken).1

theorem Entries.uncropped_loadable (ts : Entries) : ts.loadable.Uncropped := by
  unfold loadable taken
  constructor
  · rw [lookup_usableLayers_of_ne (by decide), lookup_filter_keys (fun k => !cropKeys.contains k)]
    exact if_neg (by decide)
  · rw [lookup_usableLayers_of_ne (by decide), lookup_filter_keys (fun k => !cropKeys.contains k)]
    exact if_neg (by decide)

/-- Of the rotations that cannot be tried, import leaves those that are not in a skipped layer. -/
theorem Entries.stops_loadable (ts : Entries) :
    ts.loadable.Stops anyLayer ↔ ts.Stops usableLayer := by
  rw [loadable, stops_usableLayers]
  unfold taken
  refine stops_congr ?_ ?_
  · rw [lookup_filter_keys (fun k => !cropKeys.contains k)]
    exact if_pos (by decide)
  · rw [lookup_filter_keys (fun k => !cropKeys.contains k)]
    exact if_pos (by decide)

/-! ## Reading leniently -/

/-- Without a rotation that cannot be tried, each round of a lenient reading goes on. -/
theorem readLenient_of_not_stops {es : Entries} (hcrop : es.Uncropped)
    (hstops : ¬ es.Stops anyLayer) (fuel : Nat) (ignored : List String) (n : Nat) :
    ∃ r m, readLenient fuel es ignored n = (.ok r, m) := by
  induction fuel generalizing es ignored n with
  | zero => exact ⟨_, _, rfl⟩
  | succ fuel ih =>
      have hgood : ¬ (es.CropApart ∨ es.Stops anyLayer) := not_or.mpr ⟨hcrop.not_cropApart, hstops⟩
      rw [readLenient]
      rcases (State.breaks_ofEntries es).of_run n with
        ⟨hbad, -⟩ | ⟨-, ⟨s, m, hs⟩ | ⟨problems, m, hproblems⟩⟩
      · exact absurd hbad hgood
      · rw [hs]
        exact ⟨_, _, rfl⟩
      · rw [hproblems]
        simp only
        split
        · exact ⟨_, _, rfl⟩
        · -- The keys that are left have no more such rotations than before.
          let keep := fun k => !(badKeys es problems).contains k
          exact ih (hcrop.filter keep) (fun h => hstops (Entries.Stops.of_filter keep h)) _ _

/-- A lenient reading ends where a rotation cannot be tried, whatever else could be ignored. -/
theorem readLenient_cases {es : Entries} (hcrop : es.Uncropped) (fuel : Nat)
    (ignored : List String) (n : Nat) :
    es.Stops anyLayer ∧
        (∃ f m, readLenient (fuel + 1) es ignored n = (.error f, m) ∧ f.IsStray) ∨
      ¬ es.Stops anyLayer ∧ ∃ r m, readLenient (fuel + 1) es ignored n = (.ok r, m) := by
  by_cases hstops : es.Stops anyLayer
  · refine .inl ⟨hstops, ?_⟩
    rcases (State.breaks_ofEntries es).of_run n with ⟨-, f, m, hf, hstray⟩ | ⟨hgood, -⟩
    · refine ⟨f, m, ?_, hstray⟩
      rw [readLenient, hf]
      -- A stray failure is no list of problems.
      rcases hstray with rfl | rfl | rfl
      all_goals rfl
    · exact absurd (.inr hstops) hgood
  · exact .inr ⟨hstops, readLenient_of_not_stops hcrop hstops (fuel + 1) ignored n⟩

/-! ## Fragments -/

/-- Whether the entries that a fragment writes end their reading. -/
def Fragment.Stops (fragment : String) : Prop :=
  ∃ es, Fragment.payload? fragment = some es ∧ (es.CropApart ∨ es.Stops anyLayer)

/-- A fragment is a state or none, unless its entries end their reading. -/
theorem Fragment.decode_endsIf (fragment : String) (issued : Nat) :
    EndsIf (Fragment.decode fragment issued).1 (Fragment.Stops fragment) := by
  unfold decode Fragment.Stops
  cases payload? fragment with
  | none => exact .inr ⟨by simp, none, rfl⟩
  | some es =>
      have hiff : (∃ fs, some es = some fs ∧ (fs.CropApart ∨ fs.Stops anyLayer)) ↔
          es.CropApart ∨ es.Stops anyLayer := by
        simp
      rw [hiff]
      rcases (State.breaks_ofEntries es).of_run issued with
        ⟨hbad, f, m, hf, hstray⟩ | ⟨hgood, ⟨s, m, hs⟩ | ⟨problems, m, hproblems⟩⟩
      · refine .inl ⟨hbad, f, ?_, hstray⟩
        simp only [hf]
        -- Only a list of problems stands for no state.
        rcases hstray with rfl | rfl | rfl
        all_goals rfl
      · exact .inr ⟨hgood, some s, by simp only [hs]⟩
      · exact .inr ⟨hgood, none, by simp only [hproblems]⟩

/-- So is a shared fragment. -/
theorem Fragment.open_endsIf (fragment : String) (issued : Nat) :
    EndsIf (Fragment.open? fragment issued).1 (Fragment.Stops fragment) := by
  unfold Fragment.open?
  have hdecode := Fragment.decode_endsIf fragment issued
  cases hpair : Fragment.decode fragment issued with
  | mk r m =>
      rw [hpair] at hdecode
      rcases hdecode with ⟨hbad, f, hf, hstray⟩ | ⟨hgood, s, hs⟩
      · obtain rfl : r = .error f := hf
        exact .inl ⟨hbad, f, rfl, hstray⟩
      · obtain rfl : r = .ok s := hs
        exact .inr ⟨hgood, s.map State.withoutVisualCrop, rfl⟩

/-! ## Import -/

/-- Whether the version of a document to import is no proper text. -/
def Template.BrokenVersion (text : String) : Prop :=
  ∃ es codes, readDocument text = .ok es ∧ es.lookup "version" = some (.rawText codes)

/-- Whether the settings of a document to import end their reading. -/
def Template.ImportStops (text : String) : Prop :=
  ∃ es ts, readDocument text = .ok es ∧ es.lookup "transformations" = some (.object ts) ∧
    Entries.Stops usableLayer ts

/-- Whether an import says by a warning that nothing came of it, if so, and only then. -/
def ImportResult.Tells (r : ImportResult) : Prop :=
  r.outcome = none ↔ ∃ w ∈ r.warnings, w.category = "invalid-json"

/-- An import of which nothing comes tells it by its last warning. -/
theorem ImportResult.tells_of_none (ws : List Warning) {w : Warning}
    (hw : w.category = "invalid-json") : ImportResult.Tells ⟨ws ++ [w], none⟩ :=
  iff_of_true rfl ⟨w, List.mem_append_right ws (List.mem_singleton_self w), hw⟩

/-- An import is taken with warnings of other kinds. -/
theorem ImportResult.tells_of_some {ws : List Warning} {o : Template × State}
    (hws : ∀ w ∈ ws, w.category ≠ "invalid-json") : ImportResult.Tells ⟨ws, some o⟩ :=
  iff_of_false (fun h => nomatch h) fun ⟨w, hmem, hw⟩ => hws w hmem hw

/-- Going on with a document, the result tells whether anything came of it. -/
theorem tells_importDocument {ws : List Warning} (hws : ∀ w ∈ ws, w.category ≠ "invalid-json")
    (es : Entries) (version : String) (s : State) (current : Size) (issued : Nat) :
    (importDocument es version s ws current issued).1.Tells := by
  unfold importDocument
  extract_lets around
  split
  · exact ImportResult.tells_of_some hws
  · exact ImportResult.tells_of_none _ rfl
  · exact ImportResult.tells_of_none _ rfl

/-- A document is refused with a warning that says so, or it has an object for its settings. -/
theorem readDocument_cases (text : String) :
    (∃ w, readDocument text = .error w ∧ w.category = "invalid-json") ∨
      ∃ es ts : Entries,
        readDocument text = .ok es ∧ es.lookup "transformations" = some (.object ts) := by
  unfold readDocument
  cases Value.parse text with
  | error cause => exact .inl ⟨_, rfl, rfl⟩
  | ok v =>
      cases v with
      | object es =>
          simp only
          split
          · exact .inl ⟨_, rfl, rfl⟩
          · split
            · rename_i ts hts
              exact .inr ⟨es, ts, rfl, hts⟩
            · exact .inl ⟨_, rfl, rfl⟩
      | _ => exact .inl ⟨_, rfl, rfl⟩

theorem ofOption_eq_rawText {o : Option Value} {codes : List Nat} :
    Value.ofOption o = .rawText codes ↔ o = some (.rawText codes) := by
  cases o with
  | none => exact iff_of_false (fun h => nomatch h) (fun h => nomatch h)
  | some v => exact (Option.some_inj (a := v) (b := .rawText codes)).symm

section

variable {text : String} {es ts : Entries} (hdocument : readDocument text = .ok es)
  (hts : es.lookup "transformations" = some (.object ts))

include hdocument

/-- A version that is no proper text ends an import before its settings are read. -/
theorem importTemplate_of_brokenVersion {codes : List Nat}
    (hversion : es.lookup "version" = some (.rawText codes)) (current : Size)
    (settings : Settings) (issued : Nat) :
    importTemplate text current settings issued =
      (.error (.invalid [⟨[.key "message"], .brokenText⟩]), issued) := by
  rw [importTemplate, hdocument]
  simp only [hversion, Value.ofOption, Option.getD_some]

include hts

/-- A failure that is none of the settings leaves an import. -/
theorem importTemplate_of_error (hversion : ∀ codes, es.lookup "version" ≠ some (.rawText codes))
    {f : Failure} {issued n : Nat}
    (hread : readLenient (ts.loadable.length + 1) ts.loadable [] issued = (.error f, n))
    (current : Size) (settings : Settings) :
    importTemplate text current settings issued = (.error f, n) := by
  rw [importTemplate, hdocument]
  simp only [hts]
  split
  · rename_i codes hcodes
    exact absurd (ofOption_eq_rawText.mp hcodes) (hversion codes)
  · simp only [Entries.loadable, Entries.taken] at hread
    rw [hread]

/-- Once settings were read, or could not be, an import tells what came of it. -/
theorem importTemplate_of_ok (hversion : ∀ codes, es.lookup "version" ≠ some (.rawText codes))
    {state : Option State} {ignored : List String} {issued n : Nat}
    (hread : readLenient (ts.loadable.length + 1) ts.loadable [] issued = (.ok (state, ignored), n))
    (current : Size) (settings : Settings) :
    ∃ r, (importTemplate text current settings issued).1 = .ok r ∧ r.Tells := by
  rw [importTemplate, hdocument]
  simp only [hts]
  split
  · rename_i codes hcodes
    exact absurd (ofOption_eq_rawText.mp hcodes) (hversion codes)
  · simp only [Entries.loadable, Entries.taken] at hread
    rw [hread]
    cases state with
    | none => exact ⟨_, rfl, ImportResult.tells_of_none _ rfl⟩
    | some s =>
        -- No warning up to here is of the kind that refuses the document.
        refine ⟨_, rfl, tells_importDocument ?_ es _ s current n⟩
        intro w hw
        rcases List.mem_append.mp hw with hw | hw
        · rcases List.mem_append.mp hw with hw | hw
          · split at hw
            · cases hw
            · rw [List.mem_singleton.mp hw]
              exact ne_of_beq_false rfl
          · split at hw
            · cases hw
            · rw [List.mem_singleton.mp hw]
              exact ne_of_beq_false rfl
        · obtain ⟨key, -, rfl⟩ := List.mem_map.mp hw
          exact ne_of_beq_false rfl

end

/-- Everything that is wrong with a document to import is told by warnings, unless its version is
    no proper text or its settings end their reading. -/
theorem importTemplate_cases (text : String) (current : Size) (settings : Settings)
    (issued : Nat) :
    Template.BrokenVersion text ∧
        (importTemplate text current settings issued).1 =
          .error (.invalid [⟨[.key "message"], .brokenText⟩]) ∨
      ¬ Template.BrokenVersion text ∧
        StraysIf (importTemplate text current settings issued).1 (Template.ImportStops text)
          (∃ r, (importTemplate text current settings issued).1 = .ok r ∧ r.Tells) := by
  rcases readDocument_cases text with ⟨w, hdocument, hw⟩ | ⟨es, ts, hdocument, hts⟩
  · refine .inr ⟨?_, .inr ⟨?_, ⟨[w], none⟩, ?_, ImportResult.tells_of_none [] hw⟩⟩
    · simp [Template.BrokenVersion, hdocument]
    · simp [Template.ImportStops, hdocument]
    · rw [importTemplate, hdocument]
  · have hbroken : Template.BrokenVersion text ↔
        ∃ codes, es.lookup "version" = some (.rawText codes) := by
      simp [Template.BrokenVersion, hdocument]
    have hstops : Template.ImportStops text ↔ ts.loadable.Stops anyLayer := by
      rw [Entries.stops_loadable]
      simp [Template.ImportStops, hdocument, hts]
    rw [hbroken, hstops]
    by_cases hversion : ∃ codes, es.lookup "version" = some (.rawText codes)
    · obtain ⟨codes, hcodes⟩ := hversion
      refine .inl ⟨⟨codes, hcodes⟩, ?_⟩
      rw [importTemplate_of_brokenVersion hdocument hcodes]
    · refine .inr ⟨hversion, ?_⟩
      rw [not_exists] at hversion
      rcases readLenient_cases ts.uncropped_loadable ts.loadable.length [] issued with
        ⟨hbad, f, n, hread, hstray⟩ | ⟨hgood, ⟨state, ignored⟩, n, hread⟩
      · refine .inl ⟨hbad, f, ?_, hstray⟩
        rw [importTemplate_of_error hdocument hts hversion hread]
      · exact .inr ⟨hgood, importTemplate_of_ok hdocument hts hversion hread current settings⟩

/-! ## Stored templates -/

/-- Whether the settings of a stored template end their reading. -/
def Template.StoredStops (text : String) : Prop :=
  ∃ es ts : Entries, Value.parse text = .ok (.object es) ∧ storedProblems (.object es) = [] ∧
    es.lookup "transformations" = some (.object ts) ∧ ts.Stops anyLayer

namespace Template

variable {es : Entries} {P : Prop}

theorem steady_optionalKey {α : Type} {first second : String} {c : Value → Check α}
    (hc : ∀ v, Steady (c v)) : Steady (optionalKey es first second c) := by
  unfold optionalKey
  split
  · exact .pure _
  · exact .pure _
  · exact ((hc _).map).within _

theorem steady_readMode (v : Value) : Steady (SizeMode.read v) := by
  unfold SizeMode.read
  split
  · split
    · exact .pure _
    · exact .note _ _
  · exact .note _ _

theorem steady_readDate (v : Value) : Steady (readDate v) := by
  unfold readDate
  split
  · exact steady_fieldOr Convert.steady_text
  · exact .note _ _

/-- Around its settings nothing ends the reading of a template. -/
theorem breaks_readAround {c : Check State} (hc : c.Breaks P) : (readAround es c).Breaks P := by
  unfold readAround
  refine (steady_fieldOr Convert.steady_text).bind fun _ => ?_
  refine (steady_optionalKey Convert.steady_text).bind fun _ => ?_
  refine (steady_optionalKey Convert.steady_text).bind fun _ => ?_
  refine (steady_fieldOr steady_readMode).bind fun _ => ?_
  refine (steady_optionalKey Size.steady_read).bind fun _ => ?_
  refine hc.bind_steady fun _ => ?_
  refine (steady_fieldOr steady_readDate).bind fun _ => ?_
  exact Steady.pure _

/-- A template ends its reading where its settings do. -/
theorem breaks_read (es : Entries) :
    (Template.read es).Breaks
      (∃ ts, es.lookup "transformations" = some (.object ts) ∧ Entries.Stops anyLayer ts) := by
  unfold Template.read
  refine breaks_readAround ?_
  unfold Convert.required
  split
  · rename_i v hv
    refine ((State.breaks_check v false).within _).congr ?_
    simp [hv]
  · rename_i hnone
    exact ((Steady.note _ _).within _).congr (by simp [hnone])

/-- A text that has all parts of a stored template is read as one or refused, unless its settings
    end their reading. -/
theorem parse_complete {text : String} {es : Entries}
    (hparse : Value.parse text = .ok (.object es)) (hcomplete : storedProblems (.object es) = [])
    (source : String) (issued : Nat) :
    StraysIf (Template.parse text source issued).1
      (∃ ts, es.lookup "transformations" = some (.object ts) ∧ Entries.Stops anyLayer ts)
      ((∃ t, (Template.parse text source issued).1 = .ok t) ∨
        ∃ fault, (Template.parse text source issued).1 = .error (.template fault)) := by
  unfold Template.parse
  simp only [hparse, hcomplete, List.isEmpty_nil, Bool.not_true, Bool.false_eq_true, if_false]
  rcases (breaks_read es).of_run issued with
    ⟨hbad, f, m, hf, hstray⟩ | ⟨hgood, ⟨t, m, ht⟩ | ⟨problems, m, hproblems⟩⟩
  · refine .inl ⟨hbad, f, ?_, hstray⟩
    simp only [hf]
    rcases hstray with rfl | rfl | rfl
    all_goals rfl
  · exact .inr ⟨hgood, .inl ⟨t, by simp only [ht]⟩⟩
  · refine .inr ⟨hgood, .inr ⟨.invalid source problems.length, ?_⟩⟩
    simp only [hproblems]

/-- Any other text is refused. -/
theorem parse_incomplete {text : String}
    (h : ¬ ∃ es : Entries, Value.parse text = .ok (.object es) ∧ storedProblems (.object es) = [])
    (source : String) (issued : Nat) :
    ∃ fault, (Template.parse text source issued).1 = .error (.template fault) := by
  unfold Template.parse
  cases hparse : Value.parse text with
  | error cause => exact ⟨_, rfl⟩
  | ok v =>
      simp only
      split
      · exact ⟨_, rfl⟩
      · rename_i hproblems
        cases v with
        | object es =>
            refine absurd ⟨es, hparse, ?_⟩ h
            simpa using hproblems
        | _ => exact ⟨_, rfl⟩

/-- A stored template is read or refused as a template, unless its settings end their reading. -/
theorem parse_cases (text source : String) (issued : Nat) :
    StraysIf (Template.parse text source issued).1 (StoredStops text)
      ((∃ t, (Template.parse text source issued).1 = .ok t) ∨
        ∃ fault, (Template.parse text source issued).1 = .error (.template fault)) := by
  by_cases h : ∃ es : Entries,
      Value.parse text = .ok (.object es) ∧ storedProblems (.object es) = []
  · obtain ⟨es, hparse, hcomplete⟩ := h
    have hiff : StoredStops text ↔
        ∃ ts, es.lookup "transformations" = some (.object ts) ∧ Entries.Stops anyLayer ts := by
      simp [StoredStops, hparse, hcomplete]
    rw [hiff]
    exact parse_complete hparse hcomplete source issued
  · refine .inr ⟨?_, .inr (parse_incomplete h source issued)⟩
    rintro ⟨es, ts, hparse, hcomplete, -⟩
    exact h ⟨es, hparse, hcomplete⟩

end Template

/-! ## All readers -/

/-- What malformed text does.  A fragment is a state or none, and an import gives a result, which
    says by a warning of its kind if nothing came of the document.  The text of a stored template
    is a template or refused as one.  Only a rotation that cannot be tried, the edges of an old
    crop without difference in a fragment, and a version to import that is no proper text leave
    a reader as other failures.  How deep a text is nested makes no difference, as readers have no
  limit here (see `Value.parse`). -/
theorem malformed_ends (text source : String) (current : Size) (settings : Settings)
    (issued : Nat) :
    EndsIf (Fragment.decode text issued).1 (Fragment.Stops text) ∧
      EndsIf (Fragment.open? text issued).1 (Fragment.Stops text) ∧
      (Template.BrokenVersion text ∧
          (importTemplate text current settings issued).1 =
            .error (.invalid [⟨[.key "message"], .brokenText⟩]) ∨
        ¬ Template.BrokenVersion text ∧
          StraysIf (importTemplate text current settings issued).1 (Template.ImportStops text)
            (∃ r, (importTemplate text current settings issued).1 = .ok r ∧ r.Tells)) ∧
      StraysIf (Template.parse text source issued).1 (Template.StoredStops text)
        ((∃ t, (Template.parse text source issued).1 = .ok t) ∨
          ∃ fault, (Template.parse text source issued).1 = .error (.template fault)) :=
  ⟨Fragment.decode_endsIf text issued, Fragment.open_endsIf text issued,
    importTemplate_cases text current settings issued, Template.parse_cases text source issued⟩

end Retouch
