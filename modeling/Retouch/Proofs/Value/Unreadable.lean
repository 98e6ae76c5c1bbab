/-
  Texts that are not read.

  A whole number with too many digits is refused (`unreadable_intText`), and with it every object
  that it is a part of (`unreadable_indented`): the entries in front of it are read, and then the
  reader stops.  The number of its digits is what is reported of the whole text (`parse_eq_error`).
-/
import Retouch.Proofs.Value.ReadBack

namespace Retouch.Value

open Number

/-- Whether characters are not read as a value because a number in them has so many digits,
    whatever follows that does not continue a number. -/
structure Unreadable (count : ℕ) (cs : List Char) : Prop where
  head : ∃ c r, cs = c :: r ∧ isGap c = false ∧ c ≠ '\uFEFF'
  value : ∀ rest, EndsNumber rest → ∀ fuel, cs.length < fuel →
    readValue fuel (cs ++ rest) = .error (.tooManyDigits count)

/-- Whether characters are for that reason not read as the entries of an object. -/
structure UnreadablePairs (count : ℕ) (cs : List Char) : Prop where
  head : ∃ r, cs = '"' :: r
  pairs : ∀ rest fuel, cs.length < fuel →
    readPairs fuel (cs ++ rest) = .error (.tooManyDigits count)

/-- A number with too many digits is not read. -/
theorem unreadable_intText {n : ℤ} (h : digitLimit < (natText n.natAbs).length) :
    Unreadable (natText n.natAbs).length (intText n).toList := by
  obtain ⟨c, r, hcs, hc⟩ := head_intText n
  have hmark : ∀ d, d ≠ '-' → isDigit d = false → c ≠ d := by
    rintro d hminus hdigit rfl
    rcases hc with rfl | hc
    · exact hminus rfl
    · exact absurd (hc.symm.trans hdigit) (by decide)
  have hgap : isGap c = false := by
    simp only [isGap, Bool.or_eq_false_iff, decide_eq_false_iff_not]
    exact ⟨⟨⟨hmark _ (by decide) rfl, hmark _ (by decide) rfl⟩, hmark _ (by decide) rfl⟩,
      hmark _ (by decide) rfl⟩
  refine ⟨⟨c, r, hcs, hgap, hmark _ (by decide) rfl⟩, fun rest hrest fuel hfuel => ?_⟩
  obtain ⟨fuel, rfl⟩ : ∃ f, fuel = f + 1 := ⟨fuel - 1, by omega⟩
  have hread := readAtom_intText n hrest
  rw [if_pos h, hcs, List.cons_append] at hread
  rw [hcs, List.cons_append, readValue_eq_readAtom (hmark _ (by decide) rfl)
    (hmark _ (by decide) rfl) (hmark _ (by decide) rfl), hread]

/-! ## Entries -/

section

variable {count : ℕ} {k : String} {g cs : List Char} (hg : IsGaps g)

include hg

/-- An entry with a value that is not read stops the reader. -/
theorem Unreadable.entry (h : Unreadable count cs) {tail : List Char}
    (htail : ∀ rest, EndsNumber (tail ++ rest)) :
    UnreadablePairs count (keyed k (g ++ (cs ++ tail))) := by
  refine ⟨⟨_, rfl⟩, fun rest fuel hfuel => ?_⟩
  obtain ⟨fuel, rfl⟩ : ∃ f, fuel = f + 1 := ⟨fuel - 1, by omega⟩
  rw [length_keyed] at hfuel
  simp only [List.length_append] at hfuel
  obtain ⟨c, r, hcs, hgap, -⟩ := h.head
  rw [keyed_append, List.append_assoc, List.append_assoc,
    readPairs_keyed k hg ⟨c, _, by rw [hcs]; rfl, hgap⟩, h.value _ (htail rest) fuel (by omega)]

/-- Behind an entry that is read the reader stops as well. -/
theorem UnreadablePairs.behind {v : Value} {g' ds : List Char} (hv : Denotes v cs)
    (hg' : IsGaps g') (h : UnreadablePairs count ds) :
    UnreadablePairs count (keyed k (g ++ (cs ++ ',' :: (g' ++ ds)))) := by
  refine ⟨⟨_, rfl⟩, fun rest fuel hfuel => ?_⟩
  obtain ⟨fuel, rfl⟩ : ∃ f, fuel = f + 1 := ⟨fuel - 1, by omega⟩
  rw [length_keyed] at hfuel
  simp only [List.length_append, List.length_cons] at hfuel
  obtain ⟨c, r, hcs, -, hgap⟩ := hv.head
  obtain ⟨r', hds⟩ := h.head
  have hvalue := readValue_of_denotes hv fuel (by omega) (',' :: (g' ++ (ds ++ rest)))
    (endsNumber_cons (by decide) _)
  have hpairs := h.pairs rest fuel (by omega)
  have htext : keyed k (g ++ (cs ++ ',' :: (g' ++ ds))) ++ rest =
      keyed k (g ++ (cs ++ ',' :: (g' ++ (ds ++ rest)))) := by
    simp only [keyed_append, List.append_assoc, List.cons_append]
  rw [htext, readPairs_keyed k hg ⟨c, _, by rw [hcs]; rfl, hgap⟩, hvalue]
  simp only [skipGap_cons (show isGap ',' = false from rfl)]
  rw [hds, List.cons_append] at hpairs ⊢
  rw [skipGap_append hg' rfl, hpairs]
  rfl

/-- An object is not read if its entries are not. -/
theorem UnreadablePairs.object (h : UnreadablePairs count cs) :
    Unreadable count ('\x7b' :: (g ++ cs)) := by
  refine ⟨⟨_, _, rfl, rfl, by decide⟩, fun rest _ fuel hfuel => ?_⟩
  obtain ⟨fuel, rfl⟩ : ∃ f, fuel = f + 1 := ⟨fuel - 1, by omega⟩
  simp only [List.length_cons, List.length_append] at hfuel
  obtain ⟨r, hcs⟩ := h.head
  have hpairs := h.pairs rest fuel (by omega)
  rw [hcs, List.cons_append] at hpairs
  rw [List.cons_append, List.append_assoc, hcs, List.cons_append, readValue_object hg, hpairs]
  rfl

end

/-- Entries that are joined are not read if one of them is not, and those in front of it are. -/
theorem UnreadablePairs.join {count : ℕ} {sep : String} {g g' : List Char} (hsep : sep.toList = ',' :: g)
    (hg : IsGaps g) (hg' : IsGaps g') {front : Entries} {ts us : List String} {t : String}
    (hfront : List.Forall₂ (fun e t => DenotesEntry e t.toList) front ts)
    (ht : ∃ k g₀ cs, IsGaps g₀ ∧ Unreadable count cs ∧ t.toList = keyed k (g₀ ++ cs)) :
    UnreadablePairs count ((String.intercalate sep (ts ++ t :: us)).toList ++ (g' ++ ['\x7d'])) := by
  -- The induction is on the entries that are read; the one that stops the reader comes last or
  -- has others behind it.
  induction hfront with
  | nil =>
      obtain ⟨k, g₀, cs, hg₀, hcs, ht⟩ := ht
      rw [List.nil_append]
      by_cases hus : us = []
      · subst hus
        rw [String.intercalate_singleton, ht, keyed_append, List.append_assoc]
        refine hcs.entry hg₀ fun rest => ?_
        rw [List.append_assoc]
        exact endsNumber_gaps hg' (by decide) rest
      · rw [toList_intercalate_cons sep t hus, hsep, ht]
        simp only [keyed_append, List.append_assoc, List.cons_append]
        exact hcs.entry hg₀ fun rest => endsNumber_cons (by decide) _
  | @cons e t' front ts he hes ih =>
      obtain ⟨k, v⟩ := e
      obtain ⟨g₀, ds, hg₀, hv, ht'⟩ := he
      rw [List.cons_append, toList_intercalate_cons sep t' (by simp), hsep, ht']
      simp only [keyed_append, List.append_assoc, List.cons_append]
      exact .behind hg₀ hv hg ih

/-! ## The indented form -/

section

variable (l : Layout)

theorem indentedEntries_append (depth : ℕ) (es fs : Entries) :
    indentedEntries l depth (es ++ fs) =
      indentedEntries l depth es ++ indentedEntries l depth fs := by
  induction es with
  | nil => rfl
  | cons e es ih =>
      obtain ⟨k, v⟩ := e
      rw [List.cons_append, indentedEntries, indentedEntries, ih, List.cons_append]

/-- The indented text of an object is not read if one of its values is not, and those in front of
    it are. -/
theorem unreadable_indented {count : ℕ} (depth : ℕ) {front back : Entries} {k : String} {v : Value}
    (hproper : ProperEntries front) (hfinite : FiniteEntries front)
    (h : Unreadable count (v.indented l (depth + 1)).toList) :
    Unreadable count ((Value.object (front ++ (k, v) :: back)).indented l depth).toList := by
  have hfront := denotesPairs_indented l front (depth + 1) hproper hfinite
  rw [indented, indentedEntries_append, indentedEntries, toList_block _ _ _ (by simp),
    show "\x7b".toList = ['\x7b'] from rfl, show "\x7d".toList = ['\x7d'] from rfl,
    List.singleton_append]
  exact UnreadablePairs.object (isGaps_lineBreak _) (.join (toList_separator _)
    (isGaps_lineBreak _) (isGaps_lineBreak _) hfront
    ⟨k, [' '], _, isGaps_space, h, toList_keyed rfl k _⟩)

end

/-- The digits of a number that stops the reader are reported of the whole text. -/
theorem parse_eq_error {count : ℕ} {text : String} (h : Unreadable count text.toList) :
    parse text = .error (.tooManyDigits count) := by
  obtain ⟨c, r, hc, hgap, hmark⟩ := h.head
  have hread := h.value [] endsNumber_nil (2 * text.toList.length + 2) (by omega)
  rw [List.append_nil] at hread
  have hskip : skipGap text.toList = text.toList := by
    rw [hc, skipGap_cons hgap]
  have hfirst : text.toList.head? ≠ some '\uFEFF' := by
    rw [hc]
    exact mt Option.some.inj hmark
  rw [parse, readAll, if_neg hfirst]
  simp only [hskip, hread]
  rfl

end Retouch.Value
