/-
  Values read back from their text.

  A value is read back from its compact text (`parse_compact`) if it is proper: no lone surrogate
  in a text, no whole number with more digits than are read, no key twice in an object.  From its
  indented text it is read back (`parse_indented`) if also no double is infinite or no number, for
  which that text has no words.
-/
import Retouch.Proofs.Value.Grammar

namespace Retouch.Value

open Number

/-! ## Proper values -/

mutual

/-- Whether a value is one that a text can say: no lone surrogate, no whole number with more
digits than are read, no key twice in an object. -/
def Proper : Value → Prop
  | .int n => (natText n.natAbs).length ≤ digitLimit
  | .rawText _ => False
  | .list items => ProperItems items
  | .object entries => (Entries.keys entries).Nodup ∧ ProperEntries entries
  | _ => True

/-- Whether all items of a list are proper. -/
def ProperItems : List Value → Prop
  | [] => True
  | v :: vs => v.Proper ∧ ProperItems vs

/-- Whether all values of an object are proper. -/
def ProperEntries : List (String × Value) → Prop
  | [] => True
  | (_, v) :: es => v.Proper ∧ ProperEntries es

end

theorem properEntries_iff {es : Entries} : ProperEntries es ↔ ∀ e ∈ es, e.2.Proper := by
  induction es with
  | nil => simp [ProperEntries]
  | cons e es ih => simp [ProperEntries, ih]

/-! ## The compact form -/

/-- Values that are no container and no text are read as atoms. -/
theorem denotes_atom (l : Layout) {v : Value} (hv : v.Proper)
    (hfloat : ∀ x, v = .float x → ∀ rest, EndsNumber rest →
      readAtom ((l.text x).toList ++ rest) = .ok (.float x, rest))
    (h : (∀ s, v ≠ .text s) ∧ (∀ vs, v ≠ .list vs) ∧ ∀ es, v ≠ .object es) :
    Denotes v (v.compact l).toList := by
  refine .atom fun rest hrest => ?_
  cases v with
  | null =>
      rw [compact]
      rfl
  | bool b =>
      rw [compact]
      cases b <;> rfl
  | int n =>
      rw [compact]
      rw [readAtom_intText n hrest, if_neg (not_lt.mpr hv)]
  | float x =>
      rw [compact]
      exact hfloat x rfl rest hrest
  | text s => exact absurd rfl (h.1 s)
  | rawText codes => exact hv.elim
  | list vs => exact absurd rfl (h.2.1 vs)
  | object es => exact absurd rfl (h.2.2 es)

theorem denotes_textLiteral (s : String) : Denotes (.text s) (textLiteral s).toList := by
  rw [toList_textLiteral]
  exact .text s

theorem toList_keyed {colon : String} {g : List Char} (hcolon : colon.toList = ':' :: g)
    (k t : String) : (textLiteral k ++ colon ++ t).toList = keyed k (g ++ t.toList) := by
  rw [String.toList_append, String.toList_append, toList_textLiteral, hcolon, keyed]
  simp only [List.cons_append, List.append_assoc, List.nil_append]

/-- A key and a value with a colon between them, and maybe a gap, denote an entry. -/
theorem denotesEntry_of_colon {k : String} {v : Value} {colon t : String} {g : List Char}
    (hcolon : colon.toList = ':' :: g) (hg : IsGaps g) (h : Denotes v t.toList) :
    DenotesEntry (k, v) (textLiteral k ++ colon ++ t).toList :=
  ⟨g, t.toList, hg, h, toList_keyed hcolon k t⟩

mutual

/-- The compact text of a proper value denotes it. -/
theorem denotes_compact (v : Value) (hv : v.Proper) :
    Denotes v (v.compact .interchange).toList := by
  cases v with
  | text s => exact denotes_textLiteral s
  | list vs =>
      have hitems := denotesItems_compact vs hv
      have htext : (compact .interchange (.list vs)).toList =
          '[' :: ([] ++ ((String.intercalate "," (compactItems .interchange vs)).toList ++
            ([] ++ [']']))) := by
        rw [compact, String.toList_append, String.toList_append]
        rfl
      by_cases hvs : vs = []
      · subst hvs
        exact .emptyList
      · rw [htext]
        exact .list isGaps_nil (.join rfl isGaps_nil isGaps_nil hitems hvs)
  | object es =>
      have hpairs := denotesPairs_compact es hv.2
      have htext : (compact .interchange (.object es)).toList =
          '\x7b' :: ([] ++ ((String.intercalate "," (compactEntries .interchange es)).toList ++
            ([] ++ ['\x7d']))) := by
        rw [compact, String.toList_append, String.toList_append]
        rfl
      by_cases hes : es = []
      · subst hes
        exact .emptyObject
      · rw [htext]
        exact .object isGaps_nil hv.1 (.join rfl isGaps_nil isGaps_nil hpairs hes)
  | _ => exact denotes_atom _ hv (fun x _ _ => readAtom_floatText x) (by simp)

theorem denotesItems_compact (vs : List Value) (hvs : ProperItems vs) :
    List.Forall₂ (fun v t => Denotes v t.toList) vs (compactItems .interchange vs) := by
  cases vs with
  | nil => exact .nil
  | cons v vs => exact .cons (denotes_compact v hvs.1) (denotesItems_compact vs hvs.2)

theorem denotesPairs_compact (es : Entries) (hes : ProperEntries es) :
    List.Forall₂ (fun e t => DenotesEntry e t.toList) es (compactEntries .interchange es) := by
  cases es with
  | nil => exact .nil
  | cons e es =>
      obtain ⟨k, v⟩ := e
      exact .cons (denotesEntry_of_colon rfl isGaps_nil (denotes_compact v hes.1))
        (denotesPairs_compact es hes.2)

end

/-- A proper value is read back from its compact text. -/
theorem parse_compact {v : Value} (hv : v.Proper) :
    parse (v.compact .interchange) = .ok v :=
  parse_of_denotes (denotes_compact v hv)

/-! ## The indented form -/

mutual

/-- Whether no double in a value is infinite or no number. -/
def Finite : Value → Prop
  | .float x => isFinite x = true
  | .list items => FiniteItems items
  | .object entries => FiniteEntries entries
  | _ => True

/-- Whether that holds of all items of a list. -/
def FiniteItems : List Value → Prop
  | [] => True
  | v :: vs => v.Finite ∧ FiniteItems vs

/-- Whether that holds of all values of an object. -/
def FiniteEntries : List (String × Value) → Prop
  | [] => True
  | (_, v) :: es => v.Finite ∧ FiniteEntries es

end

theorem finiteEntries_iff {es : Entries} : FiniteEntries es ↔ ∀ e ∈ es, e.2.Finite := by
  induction es with
  | nil => simp [FiniteEntries]
  | cons e es ih => simp [FiniteEntries, ih]

theorem isGaps_space : IsGaps [' '] := fun c hc => by
  rw [List.mem_singleton.mp hc]
  rfl

theorem isGaps_lineBreak (depth : ℕ) : IsGaps (lineBreak depth).toList := by
  intro c hc
  simp only [lineBreak, String.toList_append, String.toList_ofList] at hc
  rcases List.mem_append.mp hc with hc | hc
  · rw [List.mem_singleton.mp hc]
    rfl
  · rw [List.eq_of_mem_replicate hc]
    rfl

/-- The characters of a container that is not empty. -/
theorem toList_block (opening closing : String) (depth : ℕ) {parts : List String}
    (h : parts ≠ []) :
    (block opening closing depth parts).toList =
      opening.toList ++ ((lineBreak (depth + 1)).toList ++
        ((String.intercalate ("," ++ lineBreak (depth + 1)) parts).toList ++
          ((lineBreak depth).toList ++ closing.toList))) := by
  rw [block, if_neg (by simp [h])]
  simp only [String.toList_append, List.append_assoc]

theorem toList_separator (depth : ℕ) :
    ("," ++ lineBreak depth).toList = ',' :: (lineBreak depth).toList := by
  rw [String.toList_append]
  rfl

theorem denotes_block_list (depth : ℕ) {vs : List Value} {ts : List String}
    (h : List.Forall₂ (fun v t => Denotes v t.toList) vs ts) :
    Denotes (.list vs) (block "[" "]" depth ts).toList := by
  by_cases hvs : vs = []
  · subst hvs
    cases h
    rw [block, if_pos List.isEmpty_nil, String.toList_append]
    exact .emptyList
  · have hts : ts ≠ [] := fun hnil => hvs (List.forall₂_nil_right_iff.mp (hnil ▸ h))
    rw [toList_block _ _ _ hts, show "[".toList = ['['] from rfl, show "]".toList = [']'] from rfl,
      List.singleton_append]
    exact .list (isGaps_lineBreak _)
      (.join (toList_separator _) (isGaps_lineBreak _) (isGaps_lineBreak _) h hvs)

theorem denotes_block_object (depth : ℕ) {es : Entries} {ts : List String}
    (hkeys : es.keys.Nodup) (h : List.Forall₂ (fun e t => DenotesEntry e t.toList) es ts) :
    Denotes (.object es) (block "\x7b" "\x7d" depth ts).toList := by
  by_cases hes : es = []
  · subst hes
    cases h
    rw [block, if_pos List.isEmpty_nil, String.toList_append]
    exact .emptyObject
  · have hts : ts ≠ [] := fun hnil => hes (List.forall₂_nil_right_iff.mp (hnil ▸ h))
    rw [toList_block _ _ _ hts, show "\x7b".toList = ['\x7b'] from rfl,
      show "\x7d".toList = ['\x7d'] from rfl, List.singleton_append]
    exact .object (isGaps_lineBreak _) hkeys
      (.join (toList_separator _) (isGaps_lineBreak _) (isGaps_lineBreak _) h hes)

section

variable (l : Layout)

mutual

/-- The indented text of a proper value without special doubles denotes it, in any layout. -/
theorem denotes_indented (v : Value) (depth : ℕ) (hv : v.Proper) (hfinite : v.Finite) :
    Denotes v (v.indented l depth).toList := by
  cases v with
  | text s => exact denotes_textLiteral s
  | list vs => exact denotes_block_list depth (denotesItems_indented vs (depth + 1) hv hfinite)
  | object es =>
      exact denotes_block_object depth hv.1 (denotesPairs_indented es (depth + 1) hv.2 hfinite)
  | float x =>
      refine denotes_atom l hv (fun y hy rest => ?_) (by simp)
      cases hy
      cases hx : parts x with
      | finite negative m e => exact readAtom_floatText_of_finite l hx
      | _ => exact absurd hfinite (by simp [Finite, isFinite, hx])
  | _ => exact denotes_atom l hv (fun x hx => by cases hx) (by simp)

theorem denotesItems_indented (vs : List Value) (depth : ℕ) (hvs : ProperItems vs)
    (hfinite : FiniteItems vs) :
    List.Forall₂ (fun v t => Denotes v t.toList) vs (indentedItems l depth vs) := by
  cases vs with
  | nil => exact .nil
  | cons v vs =>
      exact .cons (denotes_indented v depth hvs.1 hfinite.1)
        (denotesItems_indented vs depth hvs.2 hfinite.2)

theorem denotesPairs_indented (es : Entries) (depth : ℕ) (hes : ProperEntries es)
    (hfinite : FiniteEntries es) :
    List.Forall₂ (fun e t => DenotesEntry e t.toList) es (indentedEntries l depth es) := by
  cases es with
  | nil => exact .nil
  | cons e es =>
      obtain ⟨k, v⟩ := e
      refine .cons (denotesEntry_of_colon rfl isGaps_space ?_)
        (denotesPairs_indented es depth hes.2 hfinite.2)
      exact denotes_indented v depth hes.1 hfinite.1

end

end

/-- A proper value without special doubles is read back from its indented text. -/
theorem parse_indented (l : Layout) {v : Value} (hv : v.Proper) (hfinite : v.Finite) :
    parse (v.indented l 0) = .ok v :=
  parse_of_denotes (denotes_indented l v 0 hv hfinite)

end Retouch.Value
