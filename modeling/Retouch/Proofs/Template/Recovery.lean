/-
  What can be recovered of a template.

  Settings with unusable values are read in rounds, and each round ignores the keys that problems
  are at.  Every round but the last ignores a key, so there are no more of them than keys that are
  ignored in the end, and all that is left is read (`readLenient_recovers`).  A field has two
  spellings, and the first one hides the second.  So ignoring a key may uncover another, and the
  keys that are ignored are told apart like this (`Entries.Recovers`): the field refuses the value
  at the key, and the key is not hidden by one that stays.  An import gives one warning for each of
  them (`import_recovers`).
-/
import Mathlib.Data.List.Perm.Subperm
import Retouch.Proofs.Template.Crop
import Retouch.Proofs.Template.Marks

namespace Retouch

/-! ## Keys to ignore -/

namespace Entries

/-- The entries without some keys. -/
def without (keys : List String) (es : Entries) : Entries := es.filter fun e => !keys.contains e.1

/-- Whether the field that a key is a spelling of refuses the value there, and no other key hides
the value, except one that is ignored. -/
def Refused (es : Entries) (ignored : List String) (key : String) : Prop :=
  ∃ (f : Field) (v : Value), Field.ofKey? key = some f ∧ es.lookup key = some v ∧ f.Refuses v ∧
    (key = f.key ∨ es.lookup f.key = none ∨ f.key ∈ ignored)

/-- Whether a state is what is read of entries without some keys, and these are the keys to be
ignored, each of them once. -/
structure Recovers (es : Entries) (s : State) (keys : List String) : Prop where
  once : keys.Nodup
  reads : ∃ k n, (State.ofEntries (es.without keys)).run k = (.ok s, n)
  ignored : ∀ key, key ∈ keys ↔ es.Refused keys key

variable {es : Entries} {keys more : List String} {key : String} {v : Value}

theorem Uncropped.without (h : es.Uncropped) : Uncropped (es.without keys) :=
  h.filter fun k => !keys.contains k

theorem Stops.of_without (h : Stops anyLayer (es.without keys)) : es.Stops anyLayer :=
  .of_filter (fun k => !keys.contains k) h

theorem lookup_without :
    (es.without keys).lookup key = if key ∈ keys then none else es.lookup key := by
  rw [without, lookup_filter_keys fun k => !keys.contains k]
  simp

theorem lookup_of_without (h : (es.without keys).lookup key = some v) :
    key ∉ keys ∧ es.lookup key = some v := by
  rw [lookup_without] at h
  split at h
  · cases h
  · exact ⟨‹_›, h⟩

theorem without_append : (es.without keys).without more = es.without (keys ++ more) := by
  unfold without
  rw [List.filter_filter]
  simp [Bool.and_comm]

theorem nodup_without (h : es.keys.Nodup) : (es.without keys).keys.Nodup :=
  (List.filter_sublist.map _).nodup h

/-- A key that there is makes fewer entries when it is left out. -/
theorem length_without_lt (hkey : key ∈ keys) (hes : key ∈ es.keys) :
    (es.without keys).length < es.length := by
  obtain ⟨e, he, rfl⟩ := List.mem_map.mp hes
  refine List.length_filter_lt_length_iff_exists.mpr ⟨e, he, ?_⟩
  simpa using hkey

theorem Refused.mono (h : es.Refused keys key) (hsubset : keys ⊆ more) : es.Refused more key := by
  obtain ⟨f, v, hf, hv, hrefuses, hhidden⟩ := h
  exact ⟨f, v, hf, hv, hrefuses, hhidden.imp_right fun h => h.imp_right fun h => hsubset h⟩

/-- What is refused among the entries that are left was refused before, too. -/
theorem Refused.of_without (h : (es.without keys).Refused more key) :
    key ∉ keys ∧ es.Refused (keys ++ more) key := by
  obtain ⟨f, v, hf, hv, hrefuses, hhidden⟩ := h
  obtain ⟨hnew, hv⟩ := lookup_of_without hv
  refine ⟨hnew, f, v, hf, hv, hrefuses, hhidden.imp_right fun hhidden => ?_⟩
  rcases hhidden with hnone | hmem
  · rw [lookup_without] at hnone
    split at hnone
    · exact .inr (List.mem_append_left _ ‹_›)
    · exact .inl hnone
  · exact .inr (List.mem_append_right _ hmem)

/-- A field that fails refuses its value, unless the value ends the reading. -/
theorem Fails.refused (hstops : ¬ es.Stops anyLayer) (h : es.Fails key) : es.Refused keys key := by
  obtain ⟨f, v, hspelled, hfails⟩ := h
  obtain ⟨hv, hkey⟩ := spelled?_eq_some_iff.mp hspelled
  have hvalue : ¬ f.StopsAt v := fun hstop => hstops (stops_of_spelled? hspelled hstop)
  refine ⟨f, v, ofKey?_of_spelled? hspelled, hv, Field.refuses_of_not_passes hvalue hfails, ?_⟩
  exact hkey.imp_right fun ⟨_, hnone⟩ => .inl hnone

/-- Where the entries that are left are read, all that is refused was ignored. -/
theorem Refused.mem (hread : ∀ (f : Field) k v,
      (es.without keys).spelled? f.key f.spelled = some (k, v) → (f.reading v).Passes)
    (h : es.Refused keys key) : key ∈ keys := by
  obtain ⟨f, v, hf, hv, hrefuses, hhidden⟩ := h
  by_contra hnew
  have hleft : (es.without keys).lookup key = some v := by
    rw [lookup_without, if_neg hnew, hv]
  -- Nothing hides the key any more, so the field is read from it.
  refine hrefuses.not_passes (hread f key v (spelled?_eq_some_iff.mpr ⟨hleft, ?_⟩))
  by_cases hkey : key = f.key
  · exact .inl hkey
  · refine .inr ⟨((Field.of_ofKey?_eq_some hf).resolve_right (Ne.symm hkey)).symm, ?_⟩
    rw [lookup_without]
    rcases hhidden.resolve_left hkey with hnone | hmem
    · rw [hnone, ite_self]
    · exact if_pos hmem

/-- A state is recovered if it is read once only keys are ignored that are refused. -/
theorem Recovers.of_run (hcrop : es.Uncropped) (once : keys.Nodup) {s : State} {k n : Nat}
    (hrun : (State.ofEntries (es.without keys)).run k = (.ok s, n))
    (hrefused : ∀ key ∈ keys, es.Refused keys key) : es.Recovers s keys := by
  refine ⟨once, ⟨k, n, hrun⟩, fun key => ⟨hrefused key, Refused.mem ?_⟩⟩
  rw [hcrop.without.ofEntries_eq] at hrun
  exact (State.accepts_passes _).of_run (congrArg Prod.fst hrun)

/-- So is one that is recovered of what is left. -/
theorem Recovers.of_without (hcrop : es.Uncropped) {s : State} (hnodup : keys.Nodup)
    (hkeys : ∀ key ∈ keys, es.Refused [] key) (h : (es.without keys).Recovers s more) :
    es.Recovers s (keys ++ more) := by
  have hmore : ∀ key ∈ more, key ∉ keys ∧ es.Refused (keys ++ more) key :=
    fun key hkey => ((h.ignored key).mp hkey).of_without
  obtain ⟨k, n, hrun⟩ := h.reads
  rw [without_append] at hrun
  refine .of_run hcrop ?_ hrun fun key hkey => ?_
  · exact List.nodup_append.mpr ⟨hnodup, h.once, fun a ha b hb hab => (hmore b hb).1 (hab ▸ ha)⟩
  · rcases List.mem_append.mp hkey with hkey | hkey
    · exact (hkeys key hkey).mono (List.nil_subset _)
    · exact (hmore key hkey).2

/-- The keys that are ignored are among those that there are. -/
theorem Recovers.length_le {s : State} (h : es.Recovers s keys) : keys.length ≤ es.length := by
  have hsubset : keys ⊆ es.keys := by
    intro key hkey
    obtain ⟨f, v, -, hv, -⟩ := (h.ignored key).mp hkey
    exact List.mem_map_of_mem (mem_of_lookup hv)
  calc keys.length ≤ es.keys.length := (h.once.subperm hsubset).length_le
    _ = es.length := List.length_map _

end Entries

/-! ## Reading in rounds -/

/-- Without a crop to bring forward, a reading can fail with problems only if no rotation ends
it. -/
theorem Entries.Uncropped.not_stops_iff {es : Entries} (hcrop : es.Uncropped) (issued : Nat) :
    ¬ es.Stops anyLayer ↔ ∀ f n, (State.ofEntries es).run issued = (.error f, n) →
      ∃ problems, f = .invalid problems := by
  rcases (State.breaks_ofEntries es).of_run issued with
    ⟨hbad, f, m, hrun, hstray⟩ | ⟨hgood, hends⟩
  · refine iff_of_false (fun h => h (hbad.resolve_left hcrop.not_cropApart)) fun h => ?_
    obtain ⟨problems, rfl⟩ := h f m hrun
    rcases hstray with h | h | h <;> cases h
  · refine iff_of_true (not_or.mp hgood).2 fun f n hrun => ?_
    rcases hends with ⟨s, m, hs⟩ | ⟨problems, m, hproblems⟩
    · cases hs.symm.trans hrun
    · cases hproblems.symm.trans hrun
      exact ⟨problems, rfl⟩

/-- A round of a lenient reading reads all that is left, or goes on without keys that are
refused. -/
theorem readLenient_round {es : Entries} (hcrop : es.Uncropped) (hstops : ¬ es.Stops anyLayer)
    (issued : Nat) :
    (∃ s n, (State.ofEntries es).run issued = (.ok s, n) ∧
      ∀ fuel ignored, readLenient (fuel + 1) es ignored issued = (.ok (some s, ignored), n)) ∨
    ∃ keys n, keys ≠ [] ∧ (∀ key ∈ keys, key ∈ es.keys ∧ es.Refused [] key) ∧
      (es.keys.Nodup → keys.Nodup) ∧
      ∀ fuel ignored, readLenient (fuel + 1) es ignored issued =
        readLenient fuel (es.without keys) (ignored ++ keys) n := by
  have hgood : ¬ (es.CropApart ∨ es.Stops anyLayer) := not_or.mpr ⟨hcrop.not_cropApart, hstops⟩
  rcases (State.breaks_ofEntries es).of_run issued with
    ⟨hbad, -⟩ | ⟨-, ⟨s, n, hs⟩ | ⟨problems, n, hproblems⟩⟩
  · exact absurd hbad hgood
  · refine .inl ⟨s, n, hs, fun fuel ignored => ?_⟩
    rw [readLenient, hs]
  · have hrun := hproblems
    rw [hcrop.ofEntries_eq] at hrun
    have hbad : ∀ key ∈ badKeys es problems, es.Fails key := fun key => of_mem_badKeys hrun
    refine .inr ⟨badKeys es problems, n, badKeys_ne_nil hrun, fun key hkey =>
      ⟨(hbad key hkey).mem_keys, (hbad key hkey).refused hstops⟩, fun h => ?_,
      fun fuel ignored => ?_⟩
    · exact ((es.keys.filter _).mergeSort_perm _).nodup_iff.mpr (h.filter _)
    · rw [readLenient, hproblems]
      exact if_neg (by simpa using badKeys_ne_nil hrun)

/-- A lenient reading of entries recovers a state from them, with one round for each key that is
ignored, at most, and one more. -/
theorem readLenient_recovers {es : Entries} (hcrop : es.Uncropped) (hstops : ¬ es.Stops anyLayer)
    (hkeys : es.keys.Nodup) (ignored : List String) (issued : Nat) :
    ∃ s keys n, es.Recovers s keys ∧ ∀ fuel, keys.length < fuel →
      readLenient fuel es ignored issued = (.ok (some s, ignored ++ keys), n) := by
  -- Each round that goes on leaves fewer entries.
  induction hlength : es.length using Nat.strongRecOn generalizing es ignored issued with
  | ind length ih =>
      subst hlength
      rcases readLenient_round hcrop hstops issued with
        ⟨s, n, hrun, hround⟩ | ⟨bad, m, hsome, hbad, hnodup, hround⟩
      · have hall : es.without [] = es := List.filter_eq_self.mpr fun _ _ => rfl
        refine ⟨s, [], n, .of_run hcrop List.nodup_nil (hall.symm ▸ hrun) nofun, ?_⟩
        intro fuel hfuel
        obtain ⟨fuel, rfl⟩ : ∃ f, fuel = f + 1 := ⟨fuel - 1, by omega⟩
        rw [hround, List.append_nil]
      · obtain ⟨key, hkey⟩ := List.exists_mem_of_ne_nil bad hsome
        have hless := Entries.length_without_lt hkey (hbad key hkey).1
        obtain ⟨s, keys, n, hrecovers, hrounds⟩ := ih _ hless hcrop.without
          (fun h => hstops (.of_without h)) (Entries.nodup_without hkeys) (ignored ++ bad) m rfl
        refine ⟨s, bad ++ keys, n,
          .of_without hcrop (hnodup hkeys) (fun key hkey => (hbad key hkey).2) hrecovers, ?_⟩
        intro fuel hfuel
        have hone : 0 < bad.length := List.length_pos_of_ne_nil hsome
        rw [List.length_append] at hfuel
        obtain ⟨fuel, rfl⟩ : ∃ f, fuel = f + 1 := ⟨fuel - 1, by omega⟩
        rw [hround, hrounds fuel (by omega), List.append_assoc]

/-! ## Warnings -/

/-- Whether a warning says that the value at a key was ignored. -/
def Warning.isIgnored (w : Warning) : Bool := w.category = "invalid-filter"

/-- Going on with a document warns of no value that was ignored. -/
theorem ignored_importDocument (es : Entries) (version : String) (s : State)
    (warnings : List Warning) (current : Size) (issued : Nat) :
    (importDocument es version s warnings current issued).1.warnings.filter Warning.isIgnored =
      warnings.filter Warning.isIgnored := by
  unfold importDocument
  extract_lets around
  split
  · rfl
  · exact (List.filter_append ..).trans (List.append_nil _)
  · exact (List.filter_append ..).trans (List.append_nil _)

section

variable {text : String} {es ts : Entries} (hdocument : readDocument text = .ok es)
  (hts : es.lookup "transformations" = some (.object ts))

include hdocument

include hts

/-- The settings that can be loaded have distinct keys. -/
theorem nodup_keys_loadable : ts.loadable.keys.Nodup := by
  have hdistinct : ts.keys.Nodup := by
    cases Value.distinct_of_parse (parse_of_readDocument hdocument) with
    | plain _ hobject => exact absurd rfl (hobject es)
    | object _ values =>
        cases values _ (Entries.mem_of_lookup hts) with
        | plain _ hobject => exact absurd rfl (hobject ts)
        | object keys _ => exact keys
  have htaken : ts.taken.keys.Nodup := (List.filter_sublist.map _).nodup hdistinct
  rw [Entries.loadable, keys_usableLayers]
  exact htaken

/-- The values that were ignored are told in the order in which they were. -/
theorem ignored_importTemplate (hversion : ∀ codes, es.lookup "version" ≠ some (.rawText codes))
    {s : State} {keys : List String} {issued n : Nat}
    (hread : readLenient (ts.loadable.length + 1) ts.loadable [] issued = (.ok (some s, keys), n))
    (current : Size) (settings : Settings) :
    ∃ r, (importTemplate text current settings issued).1 = .ok r ∧
      r.warnings.filter Warning.isIgnored = keys.map Warning.ignoredValue := by
  rw [importTemplate, hdocument]
  simp only [hts]
  split
  · rename_i codes hcodes
    exact absurd (ofOption_eq_rawText.mp hcodes) (hversion codes)
  · simp only [Entries.loadable, Entries.taken] at hread
    rw [hread]
    refine ⟨_, rfl, ?_⟩
    have hkeys : (keys.map Warning.ignoredValue).filter Warning.isIgnored =
        keys.map Warning.ignoredValue := by
      refine List.filter_eq_self.mpr fun w hw => ?_
      obtain ⟨key, -, rfl⟩ := List.mem_map.mp hw
      rfl
    have hother : ∀ {c : Prop} [Decidable c] {w : Warning}, w.isIgnored = false →
        (if c then [] else [w]).filter Warning.isIgnored = [] := by
      intro c _ w hw
      split
      · rfl
      · rw [List.filter_singleton, hw]
        rfl
    rw [ignored_importDocument, List.filter_append, List.filter_append, hkeys, hother rfl,
      hother rfl]
    rfl

end

/-- An import recovers a state from the settings of a template, whatever they are, unless their
first reading ends in a failure that tells no problems.  There are no more rounds than keys that are
ignored, and one more; each of these keys is told by a warning, in the order in which they were
ignored. -/
theorem Template.import_recovers {text : String} {es ts : Entries}
    (hdocument : readDocument text = .ok es)
    (hts : es.lookup "transformations" = some (.object ts)) (current : Size) (settings : Settings)
    {issued : Nat} (hproblems : ∀ f n, (State.ofEntries ts.loadable).run issued = (.error f, n) →
      ∃ problems, f = .invalid problems) :
    ∃ s keys n, ts.loadable.Recovers s keys ∧ keys.length ≤ ts.loadable.length ∧
      (∀ fuel, keys.length < fuel →
        readLenient fuel ts.loadable [] issued = (.ok (some s, keys), n)) ∧
      ((∀ codes, es.lookup "version" ≠ some (.rawText codes)) →
        ∃ r, (importTemplate text current settings issued).1 = .ok r ∧
          r.warnings.filter Warning.isIgnored = keys.map Warning.ignoredValue) := by
  have hstops := (ts.uncropped_loadable.not_stops_iff issued).mpr hproblems
  obtain ⟨s, keys, n, hrecovers, hrounds⟩ := readLenient_recovers ts.uncropped_loadable hstops
    (nodup_keys_loadable hdocument hts) [] issued
  refine ⟨s, keys, n, hrecovers, hrecovers.length_le, hrounds, fun hversion => ?_⟩
  exact ignored_importTemplate hdocument hts hversion
    (hrounds _ (Nat.lt_succ_of_le hrecovers.length_le)) current settings

/-- Settings with two unusable values of one field, and one of another. -/
def patchy : Entries :=
  [("fitIn", .int 2), ("fit_in", .int 3), ("rotation", .int 45), ("contrast", .int 10)]

/-- A document with these settings. -/
def patchyDocument : Entries := [("version", .text "1.0"), ("transformations", .object patchy)]

theorem readDocument_patchy :
    readDocument ((Value.object patchyDocument).compact .interchange) = .ok patchyDocument := by
  have hint : ∀ n : Int, (Value.int n).isPrintable = true → (Value.int n).Proper :=
    fun n => Value.proper_int_iff.mp
  have hproper : (Value.object patchyDocument).Proper :=
    ⟨by decide, trivial, ⟨by decide, hint 2 (by decide), hint 3 (by decide), hint 45 (by decide),
      hint 10 (by decide), trivial⟩, trivial⟩
  rw [readDocument, Value.parse_compact hproper]
  rfl

theorem loadable_patchy : patchy.loadable = patchy := by
  simp [Entries.loadable, Entries.taken, patchy, cropKeys, usableLayers]

/-- Three of these values are ignored, and the second one of them only after the first. -/
theorem Template.import_recovers_patchy : ∃ s keys n,
    readLenient 5 patchy [] 0 = (.ok (some s, keys), n) ∧
      "fitIn" ∈ keys ∧ "fit_in" ∈ keys ∧ "rotation" ∈ keys ∧ "contrast" ∉ keys := by
  have hstops : ¬ patchy.loadable.Stops anyLayer := by
    rw [loadable_patchy, Entries.stops_iff]
    rintro (⟨v, hv, hstop⟩ | ⟨vs, hvs, -⟩)
    · cases hv
      exact hstop
    · cases hvs
  obtain ⟨s, keys, n, hrecovers, hlength, hrounds, -⟩ :=
    import_recovers readDocument_patchy rfl ⟨40, 30⟩ {}
      ((patchy.uncropped_loadable.not_stops_iff 0).mp hstops)
  rw [loadable_patchy] at hrecovers hlength hrounds
  have hfirst : "fitIn" ∈ keys :=
    (hrecovers.ignored _).mpr ⟨.fitIn, .int 2, rfl, rfl, fun _ => ⟨_, _, rfl⟩, .inl rfl⟩
  refine ⟨s, keys, n, hrounds 5 (Nat.lt_succ_of_le hlength), hfirst, ?_, ?_, ?_⟩
  · -- It is hidden by the first spelling until that is ignored.
    exact (hrecovers.ignored _).mpr
      ⟨.fitIn, .int 3, rfl, rfl, fun _ => ⟨_, _, rfl⟩, .inr (.inr hfirst)⟩
  · exact (hrecovers.ignored _).mpr
      ⟨.rotation, .int 45, rfl, rfl, fun _ => ⟨_, _, rfl⟩, .inl rfl⟩
  · intro hmem
    obtain ⟨f, v, hf, hv, hrefuses, -⟩ := (hrecovers.ignored _).mp hmem
    cases hf
    cases hv
    obtain ⟨problems, m, h⟩ := hrefuses 0
    cases h

end Retouch
