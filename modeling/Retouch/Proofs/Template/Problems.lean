/-
  Where the problems of a document are.

  The settings of a template are read as a state, and for each problem the key at the front of its
  place is ignored.  What a check notes is kept in view however the check ends (`Check.Notes`): each
  problem of a state is at the key that one of its fields is read from, and that field does not take
  the value there (`State.notes_check`).  So a round of a lenient reading ignores such keys only
  (`of_mem_badKeys`), and never none of them (`badKeys_ne_nil`).
-/
import Retouch.Proofs.State.Marks
import Retouch.Proofs.State.Verdict
import Retouch.Template.Import

namespace Retouch

/-! ## What a check notes -/

namespace Check

variable {α β : Type} {c : Check α} {P Q : Problem → Prop}

/-- Whether all problems that a check notes, however it ends, are of a kind. -/
def Notes (c : Check α) (P : Problem → Prop) : Prop :=
  ∀ p, ∀ x ∈ (c p).2.problems, x ∈ p.problems ∨ P x

variable {P Q : Problem → Prop}

theorem Notes.pure (a : α) : Notes (Pure.pure a : Check α) P := fun _ _ hx => .inl hx

theorem Notes.mono (hc : c.Notes P) (h : ∀ x, P x → Q x) : c.Notes Q :=
  fun p x hx => (hc p x hx).imp_right (h x)

theorem Notes.bind {f : α → Check β} (hc : c.Notes P) (hf : ∀ a, (f a).Notes P) :
    (c >>= f).Notes P := by
  intro p x hx
  have hrun : (c >>= f) p = ExceptT.bindCont f (c p).1 (c p).2 := rfl
  rw [hrun] at hx
  have hfirst := hc p
  cases hcp : c p with
  | mk r q =>
      rw [hcp] at hx hfirst
      cases r with
      | error e => exact hfirst x hx
      | ok a =>
          rcases hf a q x hx with hx | hx
          · exact hfirst x hx
          · exact .inr hx

/-- Problems below a key are at that key, and there are none if nothing is wrong there. -/
theorem Notes.within (key : String) (c : Check α) :
    (Check.within (.key key) c).Notes fun x => x.key? = some key ∧ ¬ c.Passes := by
  intro p x hx
  rcases List.mem_append.mp hx with hx | hx
  · exact .inl hx
  · obtain ⟨y, hy, rfl⟩ := List.mem_map.mp hx
    refine .inr ⟨rfl, fun hpasses => ?_⟩
    obtain ⟨a, n, ha⟩ := hpasses { p with problems := [] }
    rw [ha] at hy
    cases hy

/-- So are the problems that a run tells; what ends a check at once is no list of problems. -/
theorem Notes.of_run (hc : c.Notes P) {R : Prop} (hbreaks : c.Breaks R) {n m : Nat}
    {problems : List Problem} (h : c.run n = (.error (.invalid problems), m)) :
    problems ≠ [] ∧ ∀ x ∈ problems, P x := by
  have hnotes := hc ⟨n, []⟩
  unfold Check.run at h
  cases hrun : c ⟨n, []⟩ with
  | mk r q =>
      rw [hrun] at h hnotes
      cases r with
      | error e =>
          -- The check ended at once, which it does with a stray failure only.
          cases h
          rcases hbreaks ⟨n, []⟩ with ⟨-, f, hf, hstray⟩ | ⟨-, a, ha⟩
          · rw [hrun] at hf
            cases hf
            rcases hstray with h | h | h <;> cases h
          · rw [hrun] at ha
            cases ha
      | ok a =>
          simp only at h
          split at h
          · cases h
          · rename_i hproblems
            cases h
            exact ⟨fun h => hproblems (List.isEmpty_iff.mpr h),
              fun x hx => (hnotes x hx).resolve_left List.not_mem_nil⟩

end Check

open Check (Notes Passes)

/-! ## Problems of a state -/

/-- The entry that is read is the one at the first spelling, else the one at the second. -/
theorem Entries.spelled?_eq_some_iff {first second key : String} {es : Entries} {v : Value} :
    es.spelled? first second = some (key, v) ↔
      es.lookup key = some v ∧ (key = first ∨ key = second ∧ es.lookup first = none) := by
  unfold spelled?
  cases hfirst : es.lookup first with
  | some w =>
      simp only [Option.some.injEq, Prod.mk.injEq, reduceCtorEq, and_false, or_false]
      constructor
      · rintro ⟨rfl, rfl⟩
        exact ⟨hfirst, rfl⟩
      · rintro ⟨hkey, rfl⟩
        exact ⟨rfl, Option.some.inj (hfirst.symm.trans hkey)⟩
  | none =>
      simp only [Option.map_eq_some_iff, Prod.mk.injEq, and_true]
      constructor
      · rintro ⟨w, hw, rfl, rfl⟩
        exact ⟨hw, .inr rfl⟩
      · rintro ⟨hkey, rfl | rfl⟩
        · exact absurd (hfirst.symm.trans hkey) nofun
        · exact ⟨v, hkey, rfl, rfl⟩

/-- A value that ends the check of a field ends that of the entries it is read from. -/
theorem Entries.stops_of_spelled? {es : Entries} {f : Field} {key : String} {v : Value}
    (h : es.spelled? f.key f.spelled = some (key, v)) (hstops : f.StopsAt v) :
    es.Stops anyLayer := by
  obtain ⟨hv, hkey⟩ := spelled?_eq_some_iff.mp h
  -- The fields that can end a check have one spelling only.
  have hlookup : f.spelled = f.key → es.lookup f.key = some v := by
    intro hspelled
    rcases hkey with rfl | ⟨rfl, -⟩
    · exact hv
    · exact hspelled ▸ hv
  cases f with
  | rotation => exact .turn ⟨v, hlookup rfl, hstops⟩
  | layers =>
      obtain ⟨vs, rfl, l, hl, hlayer⟩ := hstops
      exact stops_iff.mpr (.inr ⟨vs, hlookup rfl, l, hl, hlayer⟩)
  | _ => exact hstops.elim

theorem ofKey?_of_spelled? {es : Entries} {f : Field} {key : String} {v : Value}
    (h : es.spelled? f.key f.spelled = some (key, v)) : Field.ofKey? key = some f := by
  rcases (Entries.spelled?_eq_some_iff.mp h).2 with rfl | ⟨rfl, -⟩
  · exact f.ofKey?_key
  · exact f.ofKey?_spelled

/-- Whether a field is read from a key of entries and does not take the value there. -/
def Entries.Fails (es : Entries) (key : String) : Prop :=
  ∃ (f : Field) (v : Value),
    es.spelled? f.key f.spelled = some (key, v) ∧ ¬ (f.reading v).Passes

section

variable {es : Entries}

/-- The problems of an optional field are at the key that it is read from. -/
theorem notes_optionalField {α : Type} {f : Field} {c : Value → Check α}
    (hc : ∀ v, v ≠ .null → (f.reading v).Passes → (c v).Passes) :
    (optionalField es f c).Notes fun x => ∃ key ∈ x.key?, es.Fails key := by
  unfold optionalField
  split
  · exact .pure _
  · exact .pure _
  · rename_i key v hv hspelled
    refine (Notes.within key _).mono fun x ⟨hx, hfails⟩ => ⟨key, hx, f, v, hspelled, fun h => ?_⟩
    exact hfails (Check.passes_map_iff.mpr (hc v hv h))

theorem Params.notes_read (es : Entries) :
    (Params.read false es).Notes fun x => ∃ key ∈ x.key?, es.Fails key := by
  have hfield : ∀ {α : Type} {c : Value → Check α} (w : α → Value) {f : Field}, f ≠ .layers →
      (∀ v, f.convert v = w <$> c v) →
      (optionalField es f c).Notes fun x => ∃ key ∈ x.key?, es.Fails key := by
    intro α c w f hf hconvert
    refine notes_optionalField fun v hv h => ?_
    rw [Field.passes_reading_iff hf hv, hconvert] at h
    exact Check.passes_map_iff.mp h
  unfold Params.read
  simp only [Bool.false_eq_true, if_false]
  repeat first
    | refine Notes.bind (hfield Value.int (by decide) fun _ => rfl) fun _ => ?_
    | refine Notes.bind (hfield Value.bool (by decide) fun _ => rfl) fun _ => ?_
    | refine Notes.bind (hfield Value.float (by decide) fun _ => rfl) fun _ => ?_
    | refine Notes.bind (hfield Value.text (by decide) fun _ => rfl) fun _ => ?_
    | refine Notes.bind (hfield Size.write (by decide) fun _ => rfl) fun _ => ?_
  exact .pure _

/-- Each problem of a state is at a key that a field is read from, which does not take the value
there. -/
theorem State.notes_check (es : Entries) :
    (State.check false (.object es)).Notes fun x => ∃ key ∈ x.key?, es.Fails key := by
  rw [State.check]
  refine (Params.notes_read es).bind fun p => ?_
  refine Notes.bind ?_ fun layers => .pure _
  rw [checkLayersIn_eq]
  split
  · exact .pure _
  · rename_i v hv
    refine (Notes.within "layers" (checkLayers v)).mono fun x ⟨hx, hfails⟩ => ?_
    have hspelled : es.spelled? Field.layers.key Field.layers.spelled = some ("layers", v) :=
      Entries.spelled?_of_lookup hv
    exact ⟨"layers", hx, .layers, v, hspelled, fun h =>
      hfails ((Field.passes_reading_layers_iff v).mp h)⟩

theorem Entries.Fails.mem_keys {key : String} (h : es.Fails key) : key ∈ es.keys := by
  obtain ⟨f, v, hspelled, -⟩ := h
  exact List.mem_map_of_mem (Entries.mem_of_lookup (Entries.spelled?_eq_some_iff.mp hspelled).1)

/-! ## Keys that are ignored -/

variable {problems : List Problem} {n m : Nat}
  (hrun : (State.check false (.object es)).run n = (.error (.invalid problems), m))

include hrun

/-- A key that is ignored is one that a field is read from, which does not take the value there. -/
theorem of_mem_badKeys {key : String} (h : key ∈ badKeys es problems) : es.Fails key := by
  obtain ⟨-, hproblems⟩ := (State.notes_check es).of_run (State.breaks_check _ _) hrun
  unfold badKeys at h
  rw [List.mem_mergeSort, List.mem_filter] at h
  obtain ⟨x, hx, hkey⟩ := List.any_eq_true.mp h.2
  obtain ⟨k, hk, hfails⟩ := hproblems x hx
  obtain rfl : k = key := Option.some.inj (hk.symm.trans (of_decide_eq_true hkey))
  exact hfails

/-- A reading that tells problems leaves a key to ignore. -/
theorem badKeys_ne_nil : badKeys es problems ≠ [] := by
  obtain ⟨hsome, hproblems⟩ := (State.notes_check es).of_run (State.breaks_check _ _) hrun
  obtain ⟨x, hx⟩ := List.exists_mem_of_ne_nil problems hsome
  obtain ⟨key, hkey, hfails⟩ := hproblems x hx
  refine List.ne_nil_of_mem (a := key) ?_
  unfold badKeys
  rw [List.mem_mergeSort, List.mem_filter]
  exact ⟨hfails.mem_keys, List.any_eq_true.mpr ⟨x, hx, decide_eq_true hkey⟩⟩

end

end Retouch
