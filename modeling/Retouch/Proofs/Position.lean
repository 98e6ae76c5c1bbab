/-
  Positions read back.

  A word with an offset is read back as the alignment it was written for (`ofText_word`): the
  word holds no digit, so it is no number, and the offset is written in ASCII digits, which stand
  for themselves.  So does a whole coordinate: what is written is the number exactly
  (`written?_text_int`), and it is read through the nearest double, so as itself if it fits a
  mantissa (`ofText_text_int`).  A coordinate in normal form is its own written form
  (`read_write`), and any other position is read back in its normal form or not at all
  (`eq_normal_of_read_write`).
-/
import Retouch.Position
import Retouch.Proofs.Value.Numbers

namespace Retouch

/-! ## Digits and blanks -/

namespace Text

open Number (isDigit digitsNat)

theorem isDigit_iff {c : Char} : isDigit c = true ↔ 0x30 ≤ c.toNat ∧ c.toNat ≤ 0x39 := by
  simp only [isDigit, Bool.and_eq_true, decide_eq_true_eq, Char.le_def, UInt32.le_iff_toNat_le]
  exact Iff.rfl

theorem digitValue?_of_isDigit {c : Char} (h : isDigit c = true) :
    digitValue? c = some (c.toNat - '0'.toNat) := by
  obtain ⟨hlow, hhigh⟩ := isDigit_iff.mp h
  have hrun : c.toNat < 0x30 + 10 := by omega
  unfold digitValue? digitZeros
  rw [List.find?_cons_of_pos (by simp [hlow, hrun])]
  rfl

theorem isDecimalDigit_of_isDigit {c : Char} (h : isDigit c = true) :
    isDecimalDigit c = true := by
  rw [isDecimalDigit, digitValue?_of_isDigit h]
  rfl

/-- ASCII digits have the value they have as digits of any script. -/
theorem digitsValue?_of_isDigit {cs : List Char} (h : ∀ c ∈ cs, isDigit c = true) :
    digitsValue? cs = some (digitsNat cs) := by
  have hstep : ∀ (n : ℕ), cs.foldl (fun acc c => do return 10 * (← acc) + (← digitValue? c))
      (some n) = some (cs.foldl (fun n c => 10 * n + (c.toNat - '0'.toNat)) n) := by
    induction cs with
    | nil => exact fun _ => rfl
    | cons c cs ih =>
        intro n
        rw [List.foldl_cons, List.foldl_cons, digitValue?_of_isDigit (h c List.mem_cons_self)]
        exact ih (fun d hd => h d (List.mem_cons_of_mem _ hd)) _
  exact hstep 0

/-- What begins and ends without blanks is not cut. -/
theorem trimBy_eq_self {p : Char → Bool} {cs : List Char} (hfirst : ∀ c ∈ cs.head?, p c = false)
    (hlast : ∀ c ∈ cs.getLast?, p c = false) : trimBy p cs = cs := by
  unfold trimBy
  rw [dropWhile_eq_self_of_head hfirst,
    dropWhile_eq_self_of_head (by rwa [List.head?_reverse]), List.reverse_reverse]

end Text

namespace Position

open Number (Decimal isDigit natText intText digitLimit signedDouble decimalDouble)

/-! ## Words -/

theorem not_isBlank_of_isDigit {c : Char} (h : isDigit c = true) : Text.isBlank c = false := by
  obtain ⟨hlow, hhigh⟩ := Text.isDigit_iff.mp h
  simp only [Text.isBlank, Text.isSpace, Bool.or_eq_false_iff, Bool.and_eq_false_iff,
    decide_eq_false_iff_not, beq_eq_false_iff_ne]
  omega

theorem toLower_of_isDigit {c : Char} (h : isDigit c = true) : c.toLower = c := by
  obtain ⟨-, hhigh⟩ := Text.isDigit_iff.mp h
  have hval : c.val.toNat ≤ 0x39 := hhigh
  unfold Char.toLower
  rw [dif_neg]
  rintro ⟨hupper, -⟩
  have : 0x41 ≤ c.val.toNat := UInt32.le_iff_toNat_le.mp hupper
  omega

/-- A word with an offset behind it is no number. -/
theorem numberOfChars?_word (side : Side) (r : List Char) :
    numberOfChars? (side.name.toList ++ r) = none := by
  cases side <;> rfl

theorem edgeOfChars?_word (side : Side) {ds : List Char} (hds : ∀ c ∈ ds, isDigit c = true)
    (hne : ds ≠ []) : edgeOfChars? (side.name.toList ++ '-' :: ds) = some (side.name, ds) := by
  have hall : ds.all Text.isDecimalDigit = true :=
    List.all_eq_true.mpr fun c hc => Text.isDecimalDigit_of_isDigit (hds c hc)
  have hempty : ds.isEmpty = false := List.isEmpty_eq_false_iff.mpr hne
  have hword : (side.name.toList ++ '-' :: ds).takeWhile (· ≠ '-') = side.name.toList ∧
      (side.name.toList ++ '-' :: ds).dropWhile (· ≠ '-') = '-' :: ds := by
    cases side <;> exact ⟨rfl, rfl⟩
  have hedge : edgeWords.lookup side.name = some side.name := by
    cases side <;> decide
  unfold edgeOfChars?
  simp only [hword.1, hword.2, String.ofList_toList, hedge, hall, hempty]
  rfl

/-- An alignment with an offset is read back, unless the offset has too many digits. -/
theorem ofText_word (side : Side) (n : ℕ) :
    ofText (side.name ++ "-" ++ natText n) =
      if digitLimit < (natText n).length then .error (.value .tooManyDigits)
      else .ok (.aligned side n) := by
  obtain ⟨ds, hds⟩ : ∃ ds, Nat.toDigits 10 n = ds := ⟨_, rfl⟩
  have hdigits : ∀ c ∈ ds, isDigit c = true := fun c hc =>
    Number.isDigit_of_mem_toDigits (hds ▸ hc)
  have hne : ds ≠ [] := hds ▸ Nat.toDigits_ne_nil
  have htext : (side.name ++ "-" ++ natText n).toList = side.name.toList ++ '-' :: ds := by
    rw [String.toList_append, String.toList_append, natText, hds, List.append_assoc]
    show side.name.toList ++ '-' :: (String.ofList ds).toList = _
    rw [String.toList_ofList]
  have hcut : Text.trimBy Text.isBlank (side.name.toList ++ '-' :: ds) =
      side.name.toList ++ '-' :: ds := by
    refine Text.trimBy_eq_self ?_ ?_
    · cases side <;> simp [Side.name, Text.isBlank, Text.isSpace]
    · intro c hc
      rw [List.getLast?_append_of_ne_nil _ (List.cons_ne_nil _ _),
        List.getLast?_cons_of_ne_nil hne] at hc
      exact not_isBlank_of_isDigit (hdigits c (List.mem_of_mem_getLast? hc))
  have hlower : (side.name.toList ++ '-' :: ds).map Char.toLower =
      side.name.toList ++ '-' :: ds := by
    have hrest : ds.map Char.toLower = ds := by
      conv => rhs; rw [← List.map_id ds]
      exact List.map_congr_left fun c hc => toLower_of_isDigit (hdigits c hc)
    rw [List.map_append, List.map_cons, hrest]
    cases side <;> rfl
  have hlen : (natText n).length = ds.length := by
    rw [natText, String.length_ofList, hds]
  have hside : align? side.name n = .ok (.aligned side n) := by
    unfold align?
    have hname : Side.ofName? side.name = some side := by
      cases side <;> decide
    rw [hname]
    simp
  have hvalue : Text.digitsValue? ds = some n := by
    rw [Text.digitsValue?_of_isDigit hdigits, ← hds, Number.digitsNat_toDigits]
  unfold ofText
  simp only [htext, hcut, hlower, numberOfChars?_word, edgeOfChars?_word side hdigits hne, hlen,
    hvalue, Option.getD_some, hside]

/-! ## Numbers -/

/-- An optional minus sign in front of characters, and what follows. -/
def takeMinus : List Char → Bool × List Char
  | '-' :: r => (true, r)
  | r => (false, r)

/-- The places behind the digits in front of the point, none if there is no point. -/
def places? : List Char → Option (List Char)
  | [] => some []
  | '.' :: r => if r.isEmpty || !r.all Text.isDecimalDigit then none else some r
  | _ => none

/-- The decimal that characters write without a sign: digits of any script, and optionally a point
    with more digits. -/
def magnitude? (cs : List Char) : Option Decimal := do
  let whole := cs.takeWhile Text.isDecimalDigit
  let places ← places? (cs.dropWhile Text.isDecimalDigit)
  if whole.isEmpty then none
  let digits ← Text.digitsValue? (whole ++ places)
  return ⟨digits, -(places.length : Int)⟩

/-- The sign and the decimal of the number that characters write. -/
def numeral? (cs : List Char) : Option (Bool × Decimal) :=
  (magnitude? (takeMinus cs).2).map ((takeMinus cs).1, ·)

/-- A number is read as the double nearest to what is written. -/
theorem numberOfChars?_eq (cs : List Char) :
    numberOfChars? cs =
      (numeral? cs).map fun (negative, d) => signedDouble negative (decimalDouble d) := by
  have hread : ∀ (negative : Bool) (whole : List Char) (places : Option (List Char)),
      (do
        let places ← places
        if whole.isEmpty then none
        let digits ← Text.digitsValue? (whole ++ places)
        return signedDouble negative (decimalDouble ⟨digits, -(places.length : Int)⟩)) =
      (do
        let places ← places
        if whole.isEmpty then none
        let digits ← Text.digitsValue? (whole ++ places)
        return (⟨digits, -(places.length : Int)⟩ : Decimal)).map
          fun d => signedDouble negative (decimalDouble d) := by
    intro negative whole places
    cases places with
    | none => rfl
    | some places =>
        cases whole with
        | nil => rfl
        | cons c whole =>
            show (Text.digitsValue? (c :: whole ++ places)).bind _ =
              ((Text.digitsValue? (c :: whole ++ places)).bind _).map _
            cases Text.digitsValue? (c :: whole ++ places) <;> rfl
  unfold numeral? magnitude?
  rw [Option.map_map]
  refine Eq.trans ?_ (hread _ _ _)
  unfold numberOfChars?
  split
  rename_i negative r hsign
  have hsign' : takeMinus cs = (negative, r) := hsign
  rw [hsign']
  simp only
  generalize r.dropWhile Text.isDecimalDigit = rest
  split
  · rfl
  · rename_i r'
    have hpoint : places? ('.' :: r') =
        if r'.isEmpty || !r'.all Text.isDecimalDigit then none else some r' := rfl
    rw [hpoint]
    split <;> rfl
  · rename_i hnil hpoint
    have hnone : places? rest = none := by
      unfold places?
      split
      · exact (hnil rfl).elim
      · exact (hpoint _ rfl).elim
      · rfl
    rw [hnone]

/-- The exact number that a text writes, if it is one. -/
def written? (s : String) : Option Rat :=
  (numeral? ((Text.trimBy Text.isBlank s.toList).map Char.toLower)).map fun (negative, d) =>
    if negative then -d.value else d.value

/-- Digits are the decimal of the number that they write. -/
theorem magnitude?_digits {ds : List Char} (hds : ∀ c ∈ ds, isDigit c = true) (hne : ds ≠ []) :
    magnitude? ds = some ⟨Number.digitsNat ds, 0⟩ := by
  have hall : ∀ c ∈ ds, Text.isDecimalDigit c = true := fun c hc =>
    Text.isDecimalDigit_of_isDigit (hds c hc)
  have htake : ds.takeWhile Text.isDecimalDigit = ds := List.takeWhile_eq_self_iff.mpr hall
  have hdrop : ds.dropWhile Text.isDecimalDigit = [] := List.dropWhile_eq_nil_iff.mpr hall
  have hempty : ds.isEmpty = false := List.isEmpty_eq_false_iff.mpr hne
  unfold magnitude?
  simp only [htake, hdrop, hempty]
  show (Text.digitsValue? (ds ++ [])).bind _ = _
  rw [List.append_nil, Text.digitsValue?_of_isDigit hds]
  rfl

theorem toList_intText (n : ℤ) :
    ∃ ds, (∀ c ∈ ds, isDigit c = true) ∧ ds ≠ [] ∧ Number.digitsNat ds = n.natAbs ∧
      (intText n).toList = if n < 0 then '-' :: ds else ds := by
  refine ⟨Nat.toDigits 10 n.natAbs, fun c hc => Number.isDigit_of_mem_toDigits hc,
    Nat.toDigits_ne_nil, Number.digitsNat_toDigits _, ?_⟩
  unfold intText natText
  split
  · rw [String.toList_append, String.toList_ofList, String.toList_ofList]
    rfl
  · rw [String.toList_ofList]

theorem numeral?_intText (n : ℤ) :
    numeral? (intText n).toList = some (decide (n < 0), ⟨n.natAbs, 0⟩) := by
  obtain ⟨ds, hds, hne, hvalue, htext⟩ := toList_intText n
  have hmagnitude := magnitude?_digits hds hne
  rw [hvalue] at hmagnitude
  rw [htext]
  by_cases hn : n < 0
  · rw [if_pos hn, numeral?]
    show (magnitude? ds).map _ = _
    rw [hmagnitude, decide_eq_true hn]
    rfl
  · obtain ⟨c, r, rfl⟩ := List.exists_cons_of_ne_nil hne
    have hfirst : takeMinus (c :: r) = (false, c :: r) := by
      unfold takeMinus
      split
      · rename_i r' heq
        cases heq
        exact absurd (hds '-' List.mem_cons_self) (by decide)
      · rfl
    rw [if_neg hn, numeral?, hfirst, hmagnitude, decide_eq_false hn]
    rfl

/-- The text of a whole number has no blanks around it and no capitals. -/
theorem plain_intText (n : ℤ) :
    (Text.trimBy Text.isBlank (intText n).toList).map Char.toLower = (intText n).toList := by
  obtain ⟨ds, hds, hne, -, htext⟩ := toList_intText n
  have hchars : ∀ c ∈ (intText n).toList, c = '-' ∨ isDigit c = true := by
    rw [htext]
    intro c hc
    split at hc
    · exact (List.mem_cons.mp hc).imp_right (hds c)
    · exact Or.inr (hds c hc)
  have hblank : ∀ c ∈ (intText n).toList, Text.isBlank c = false := by
    intro c hc
    rcases hchars c hc with rfl | hdigit
    · rfl
    · exact not_isBlank_of_isDigit hdigit
  rw [Text.trimBy_eq_self (fun c hc => hblank c (List.mem_of_mem_head? hc))
    fun c hc => hblank c (List.mem_of_mem_getLast? hc)]
  conv => rhs; rw [← List.map_id (intText n).toList]
  refine List.map_congr_left fun c hc => ?_
  rcases hchars c hc with rfl | hdigit
  · rfl
  · exact toLower_of_isDigit hdigit

/-- What is written of a whole coordinate is the number that it is. -/
theorem written?_text_int (n : ℤ) : written? (absolute (.int n)).text = some (n : ℚ) := by
  show (numeral? ((Text.trimBy Text.isBlank (intText n).toList).map Char.toLower)).map _ = _
  rw [plain_intText, numeral?_intText, Option.map_some, Option.some_inj]
  have hvalue : (Decimal.mk n.natAbs 0).value = ((n.natAbs : ℤ) : ℚ) := by
    rw [Decimal.value, zpow_zero, mul_one, Int.cast_natCast]
  simp only [hvalue]
  by_cases hn : n < 0
  · rw [if_pos (decide_eq_true hn), show (n.natAbs : ℤ) = -n by omega, Int.cast_neg, neg_neg]
  · rw [if_neg (by simpa using hn), show (n.natAbs : ℤ) = n by omega]

/-- A whole coordinate that fits a mantissa is read back from its text. -/
theorem ofText_text_int {n : ℤ} (hn : n.natAbs < 2 ^ 53) :
    ofText (absolute (.int n)).text = .ok (absolute (.int n)) := by
  show ofText (intText n) = _
  have hwhole : (Number.float (signedDouble (decide (n < 0))
      (decimalDouble ⟨n.natAbs, 0⟩))).normalize = .int n := by
    have hsigned : Number.signed (decide (n < 0)) n.natAbs = n := by
      unfold Number.signed
      split
      · rename_i h
        have := of_decide_eq_true h
        omega
      · rename_i h
        have := of_decide_eq_false (Bool.not_eq_true _ ▸ h)
        omega
    rw [Number.normalize, Number.whole?_decimalDouble hn, hsigned]
  unfold ofText
  simp only [plain_intText, numberOfChars?_eq, numeral?_intText, Option.map_some, hwhole]

/-! ## Positions -/

/-- Whether a position is in the form that reading gives it: a coordinate that is whole is a whole
number. -/
def Valid : Position → Prop
  | .absolute px => px.normalize = px
  | _ => True

/-- Whether the numbers of a position have no more digits than are read. -/
def Short : Position → Prop
  | .absolute (.int n) => (natText n.natAbs).length ≤ digitLimit
  | .aligned _ outside => (natText outside).length ≤ digitLimit
  | _ => True

theorem Short.isPrintable {p : Position} (h : p.Short) : p.isPrintable = true := by
  cases p with
  | absolute px => rfl
  | aligned side outside => exact decide_eq_true h
  | centered => rfl

theorem read_write {p : Position} (hvalid : p.Valid) (hoffset : p.isPrintable = true) :
    read p.write = .ok p := by
  cases p with
  | absolute px =>
      rw [write, hvalid]
      cases px with
      | int n => rfl
      | float x =>
          show Except.ok (absolute (Number.float x).normalize) = _
          rw [hvalid]
  | aligned side outside =>
      cases outside with
      | zero => cases side <;> rfl
      | succ n =>
          show ofText (side.name ++ "-" ++ natText (n + 1)) = _
          rw [ofText_word, if_neg (Nat.not_lt.mpr (of_decide_eq_true hoffset))]
  | centered => exact read_write_centered

/-! ## Normal form -/

/-- A position in the form that reading gives it. -/
def normal : Position → Position
  | .absolute px => .absolute px.normalize
  | p => p

theorem valid_normal (p : Position) : p.normal.Valid := by
  cases p with
  | absolute px => exact Number.normalize_normalize px
  | aligned => trivial
  | centered => trivial

theorem Valid.normal_eq {p : Position} (h : p.Valid) : p.normal = p := by
  cases p with
  | absolute px => exact congrArg absolute h
  | aligned => rfl
  | centered => rfl

/-- A position is written as its normal form. -/
theorem write_normal (p : Position) : p.normal.write = p.write := by
  cases p with
  | absolute px => rw [normal, write, write, Number.normalize_normalize]
  | aligned => rfl
  | centered => rfl

/-- The normal form has no longer numbers: a double that is whole is a short number. -/
theorem short_normal {p : Position} (h : p.Short) : p.normal.Short := by
  cases p with
  | aligned => exact h
  | centered => trivial
  | absolute px =>
      cases px with
      | int n => exact h
      | float x =>
          rw [normal, Number.normalize]
          cases hx : Number.whole? x with
          | none => trivial
          | some n =>
              show (natText n.natAbs).length ≤ digitLimit
              rw [natText, String.length_ofList]
              exact (Nat.length_toDigits_le_iff (by decide) (by decide)).mpr
                (Number.natAbs_lt_of_whole? hx)

/-- What a written position is read as, if it is read, is its normal form. -/
theorem eq_normal_of_read_write {p q : Position} (h : read p.write = .ok q) : q = p.normal := by
  cases p with
  | absolute px =>
      rw [write] at h
      cases hn : px.normalize with
      | int n =>
          rw [hn] at h
          rw [normal, hn]
          exact (Except.ok.inj h).symm
      | float x =>
          rw [hn] at h
          have hx : (Number.float x).normalize = .float x := hn ▸ Number.normalize_normalize px
          rw [normal, hn, ← hx]
          exact (Except.ok.inj h).symm
  | aligned side outside =>
      cases outside with
      | zero =>
          have hread : read (write (.aligned side 0)) = .ok (.aligned side 0) :=
            read_write trivial
              (by show decide ((natText 0).length ≤ digitLimit) = true; decide)
          exact (Except.ok.inj (hread.symm.trans h)).symm
      | succ n =>
          have h : ofText (side.name ++ "-" ++ natText (n + 1)) = .ok q := h
          rw [ofText_word] at h
          split at h
          · cases h
          · exact (Except.ok.inj h).symm
  | centered =>
      rw [read_write_centered] at h
      exact (Except.ok.inj h).symm

end Position

end Retouch
