/-
  Templates read back from their files.

  The document of a template is written without carriage returns (`Value.feedsOnly_indented`), so
  reading its lines changes nothing in it, and a template that can be stored is what its document
  is read as (`Template.parse_text`).
-/
import Retouch.Proofs.Number.Numeric
import Retouch.Proofs.Template.RoundTrip
import Retouch.Template.Library

namespace Retouch

/-! ## Line ends -/

/-- Whether no line of a text ends in a carriage return. -/
def FeedsOnly (s : String) : Prop := '\r' ∉ s.toList

instance (s : String) : Decidable (FeedsOnly s) := inferInstanceAs (Decidable ('\r' ∉ s.toList))

theorem FeedsOnly.append {s t : String} (hs : FeedsOnly s) (ht : FeedsOnly t) :
    FeedsOnly (s ++ t) := by
  unfold FeedsOnly
  rw [String.toList_append, List.mem_append]
  exact not_or.mpr ⟨hs, ht⟩

theorem FeedsOnly.intercalate {separator : String} (hseparator : FeedsOnly separator)
    {parts : List String} (h : ∀ s ∈ parts, FeedsOnly s) :
    FeedsOnly (String.intercalate separator parts) := by
  induction parts with
  | nil => exact (by decide : FeedsOnly "")
  | cons s parts ih =>
      obtain ⟨hs, hparts⟩ := List.forall_mem_cons.mp h
      by_cases hnil : parts = []
      · subst hnil
        rwa [String.intercalate_singleton]
      · rw [String.intercalate_cons_of_ne_nil hnil]
        exact (hs.append hseparator).append (ih hparts)

/-- Lines that end in line feeds are read as they are. -/
theorem unifyLineEnds_eq_self {cs : List Char} (h : '\r' ∉ cs) : unifyLineEnds cs = cs := by
  fun_induction unifyLineEnds cs with
  | case1 r ih => exact absurd List.mem_cons_self h
  | case2 r hr ih => exact absurd List.mem_cons_self h
  | case3 c r hfeed hc ih => rw [ih fun hmem => h (List.mem_cons_of_mem _ hmem)]
  | case4 => rfl

theorem Number.Numeric.feedsOnly {s : String} (h : Number.Numeric s) : FeedsOnly s :=
  h.notMem (by decide) (by decide)

theorem notMem_toDigits (n : ℕ) : '\r' ∉ Nat.toDigits 16 n := by
  have hdigit : ∀ d < 16, '\r' ≠ Nat.digitChar d := by decide
  induction n using Nat.strongRecOn with
  | ind n ih =>
      rw [Nat.toDigits_eq_if (by decide)]
      split
      · rename_i hlt
        exact fun h => hdigit n hlt (List.mem_singleton.mp h)
      · intro h
        rcases List.mem_append.mp h with h | h
        · exact ih (n / 16) (by omega) h
        · exact hdigit (n % 16) (by omega) (List.mem_singleton.mp h)

theorem feedsOnly_hex (width n : ℕ) : FeedsOnly (Text.hex width n) := by
  unfold FeedsOnly Text.hex
  rw [String.toList_ofList, List.mem_append]
  refine not_or.mpr ⟨fun h => ?_, notMem_toDigits n⟩
  exact absurd (List.eq_of_mem_replicate h) (by decide)

namespace Value

/-- An escape with the number of a character. -/
theorem notMem_hexEscape (n : ℕ) : '\r' ∉ '\\' :: 'u' :: (Text.hex 4 n).toList := by
  intro h
  rcases List.mem_cons.mp h with h | h
  · exact absurd h (by decide)
  rcases List.mem_cons.mp h with h | h
  · exact absurd h (by decide)
  · exact feedsOnly_hex 4 n h

theorem notMem_escapeChar (c : Char) : '\r' ∉ escapeChar c := by
  unfold escapeChar
  split_ifs with hquote hslash hfeed hreturn htab hback hform hcontrol
  · decide
  · decide
  · decide
  · decide
  · decide
  · decide
  · decide
  · exact notMem_hexEscape _
  · -- A carriage return has been written as an escape already.
    exact fun h => hreturn (List.mem_singleton.mp h).symm

/-- Characters that are written between quotes have no carriage return if none is written as one. -/
theorem feedsOnly_quotes {α : Type} {code : α → List Char} (hcode : ∀ a, '\r' ∉ code a)
    (as : List α) : FeedsOnly (String.ofList ('"' :: as.flatMap code ++ ['"'])) := by
  unfold FeedsOnly
  rw [String.toList_ofList]
  intro h
  rcases List.mem_append.mp h with h | h
  · rcases List.mem_cons.mp h with h | h
    · exact absurd h (by decide)
    · obtain ⟨a, -, ha⟩ := List.mem_flatMap.mp h
      exact hcode a ha
  · exact absurd (List.mem_singleton.mp h) (by decide)

theorem feedsOnly_textLiteral (s : String) : FeedsOnly (textLiteral s) :=
  feedsOnly_quotes notMem_escapeChar _

theorem feedsOnly_rawTextLiteral (codes : List ℕ) : FeedsOnly (rawTextLiteral codes) := by
  refine feedsOnly_quotes (fun n => ?_) codes
  split
  · exact notMem_hexEscape n
  · exact notMem_escapeChar _

theorem feedsOnly_lineBreak (depth : ℕ) : FeedsOnly (lineBreak depth) := by
  refine FeedsOnly.append (by decide) fun h => ?_
  rw [String.toList_ofList] at h
  exact absurd (List.eq_of_mem_replicate h) (by decide)

theorem feedsOnly_block {opening closing : String} (depth : ℕ) {parts : List String}
    (hopening : FeedsOnly opening) (hclosing : FeedsOnly closing)
    (h : ∀ s ∈ parts, FeedsOnly s) : FeedsOnly (block opening closing depth parts) := by
  unfold block
  split
  · exact hopening.append hclosing
  · have hcomma : FeedsOnly "," := by decide
    have hseparator := hcomma.append (feedsOnly_lineBreak (depth + 1))
    exact (((hopening.append (feedsOnly_lineBreak _)).append (.intercalate hseparator h)).append
      (feedsOnly_lineBreak _)).append hclosing

mutual

/-- The document of a value has no carriage return. -/
theorem feedsOnly_indented (v : Value) (depth : ℕ) :
    FeedsOnly (v.indented .document depth) := by
  cases v with
  | null => exact (by decide : FeedsOnly "null")
  | bool b =>
      cases b with
      | false => exact (by decide : FeedsOnly "false")
      | true => exact (by decide : FeedsOnly "true")
  | int n => exact (Number.numeric_intText n).feedsOnly
  | float x =>
      rcases Number.text_cases .document x with hword | hnumeric
      · have hwords : ∀ s ∈ ["null", "null", "null"], FeedsOnly s := by decide
        exact hwords _ hword
      · exact hnumeric.feedsOnly
  | text s => exact feedsOnly_textLiteral s
  | rawText codes => exact feedsOnly_rawTextLiteral codes
  | list vs =>
      exact feedsOnly_block depth (by decide) (by decide) (feedsOnly_indentedItems vs (depth + 1))
  | object es =>
      exact feedsOnly_block depth (by decide) (by decide)
        (feedsOnly_indentedEntries es (depth + 1))

theorem feedsOnly_indentedItems (vs : List Value) (depth : ℕ) :
    ∀ s ∈ indentedItems .document depth vs, FeedsOnly s := by
  cases vs with
  | nil => exact List.forall_mem_nil _
  | cons v vs =>
      exact List.forall_mem_cons.mpr
        ⟨feedsOnly_indented v depth, feedsOnly_indentedItems vs depth⟩

theorem feedsOnly_indentedEntries (es : Entries) (depth : ℕ) :
    ∀ s ∈ indentedEntries .document depth es, FeedsOnly s := by
  cases es with
  | nil => exact List.forall_mem_nil _
  | cons e es =>
      obtain ⟨k, v⟩ := e
      have hentry := ((feedsOnly_textLiteral k).append (by decide : FeedsOnly ": ")).append
        (feedsOnly_indented v depth)
      exact List.forall_mem_cons.mpr ⟨hentry, feedsOnly_indentedEntries es depth⟩

end

end Value

/-! ## Reading what was stored -/

theorem Value.isBlankField_text {s : String} (h : s ≠ "") :
    Value.isBlankField (some (.text s)) = false := by
  unfold Value.isBlankField
  split
  · rename_i hnone
    cases hnone
  · rename_i hnull
    cases hnull
  · rename_i hempty
    exact absurd (Value.text.inj (Option.some.inj hempty)) h
  · rfl

namespace Template

/-- A template with the positions of its layers in normal form. -/
def normal (t : Template) : Template := { t with transformations := t.transformations.normal }

/-- A template in the form that reading gives is its own normal form. -/
theorem normal_eq {t : Template} (h : t.transformations.Valid) : t.normal = t := by
  rw [normal, State.Holds.normal_eq _ _ h]

theorem write_normal (t : Template) : t.normal.write = t.write := by
  rw [write, write, normal, State.write_normal]

/-- Whether a template can be read again when it is stored: it has a version, its doubles have
    values, and its whole numbers do not have too many digits. -/
structure Storable (t : Template) : Prop where
  version : t.version ≠ ""
  admissible : t.transformations.Admissible
  finite : t.transformations.Finite
  short : t.transformations.Short
  size : ∀ d ∈ t.size, d.write.Proper

variable {t : Template}

theorem Storable.proper_write (h : t.Storable) : t.write.Proper :=
  Template.proper_write (State.proper_of_short h.admissible h.short) h.size

/-- Nothing is wrong with the document of a template that has a version and a name. -/
theorem storedProblems_write (hversion : t.version ≠ "") (hname : t.name.getD "" ≠ "") :
    storedProblems t.write = [] := by
  have hstate : t.entries.lookup "transformations" =
      some (.object (t.transformations.entries Field.key)) := by
    rw [lookup_transformations, State.write_eq]
  obtain ⟨name, hname', hne⟩ : ∃ name, t.name = some name ∧ name ≠ "" := by
    cases hn : t.name with
    | none => exact absurd (by rw [hn]; rfl) hname
    | some name =>
        rw [hn] at hname
        exact ⟨name, rfl, hname⟩
  have hmissing : storedKeys.filter (fun k => Value.isBlankField (t.entries.lookup k)) = [] := by
    refine List.filter_eq_nil_iff.mpr fun k hk => ?_
    simp only [storedKeys, List.mem_cons, List.not_mem_nil, or_false] at hk
    rcases hk with rfl | rfl | rfl
    · simp [lookup_version, Value.isBlankField_text hversion]
    · simp [lookup_name, hname', Value.isBlankField_text hne]
    · simp [hstate, Value.isBlankField]
  rw [write_eq, storedProblems]
  simp only [hmissing, hstate, List.map_nil, List.nil_append]

/-- The entries of a template are read as the template. -/
theorem read_entries (h : t.Storable) : Template.read t.entries = pure t.normal := by
  have hrequired : Convert.required t.entries "transformations" (State.check false) =
      pure t.transformations.normal := by
    rw [Convert.required, lookup_transformations]
    simp only [State.check_of_short h.admissible h.short, Check.within_pure]
  rw [Template.read, hrequired]
  exact readAround_eq t _ fun _ _ => rfl

/-- A stored template is read back. -/
theorem parse_text (h : t.Storable) (hname : t.name.getD "" ≠ "") (source : String) (issued : ℕ) :
    parse t.text source issued = (.ok t.normal, issued) := by
  have hproblems : storedProblems (.object t.entries) = [] :=
    storedProblems_write h.version hname
  rw [parse, text, Value.parse_indented .document h.proper_write (finite_write h.finite)]
  simp only [write_eq, hproblems, read_entries h]
  rfl

/-- The fault of a text that is no document is passed on. -/
theorem parse_of_eq_error {text : String} {cause : Value.Fault} (h : Value.parse text = .error cause)
    (source : String) (issued : ℕ) :
    parse text source issued = (.error (.template (.unreadable source cause)), issued) := by
  rw [parse, h]

theorem feedsOnly_text (t : Template) : FeedsOnly t.text :=
  Value.feedsOnly_indented _ 0

end Template

end Retouch
