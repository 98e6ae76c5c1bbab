/-
  Numbers read back from their texts.

  A whole number is read back from its digits, and a double from each of the three forms that the
  interchange layout has for it (`readAtom_intText`, `readAtom_floatText`).  What follows a number
  has to end it: a reader takes all digits, points and exponents that it can get.
-/
import Retouch.Number.Notation
import Retouch.Proofs.Number.ReadBack
import Retouch.Value.Reader

namespace Retouch.Number

/-! ## Digits -/

theorem isDigit_of_mem_toDigits {n : ℕ} {c : Char} (h : c ∈ Nat.toDigits 10 n) :
    isDigit c = true := by
  have hdigit := Nat.isDigit_of_mem_toDigits (by decide) (by decide) h
  unfold Char.isDigit at hdigit
  unfold isDigit
  simpa [Char.le_def, ge_iff_le] using hdigit

theorem digitsNat_toDigits (n : ℕ) : digitsNat (Nat.toDigits 10 n) = n :=
  Nat.ofDigitChars_toDigits (by decide) (by decide)

theorem digitsNat_append (ds es : List Char) :
    digitsNat (ds ++ es) = digitsNat ds * 10 ^ es.length + digitsNat es := by
  show Nat.ofDigitChars 10 (ds ++ es) 0 = Nat.ofDigitChars 10 ds 0 * 10 ^ es.length +
    Nat.ofDigitChars 10 es 0
  rw [Nat.ofDigitChars_append, Nat.ofDigitChars_eq_ofDigitChars_zero, mul_comm]

theorem digitsNat_replicate_zero (k : ℕ) : digitsNat (List.replicate k '0') = 0 := by
  show Nat.ofDigitChars 10 (List.replicate k '0') 0 = 0
  rw [Nat.ofDigitChars_replicate_zero, mul_zero]

/-- The leading digit of a positive number is not zero. -/
theorem head_toDigits_ne_zero {n : ℕ} (hn : 0 < n) : (Nat.toDigits 10 n).head? ≠ some '0' := by
  induction n using Nat.strongRecOn with
  | ind n ih =>
      rw [Nat.toDigits_eq_if (by decide)]
      split
      · rename_i hlt
        interval_cases n <;> decide
      · have htail := ih (n / 10) (by omega) (by omega)
        rw [List.head?_append_of_ne_nil _ Nat.toDigits_ne_nil]
        exact htail

theorem isDigit_zeros {k : ℕ} {c : Char} (h : c ∈ List.replicate k '0') : isDigit c = true := by
  rw [List.eq_of_mem_replicate h]
  rfl

/-- Digits are taken up to the first character that is none. -/
theorem span_digits {ds rest : List Char} (hds : ∀ c ∈ ds, isDigit c = true)
    (hrest : ∀ c ∈ rest.head?, isDigit c = false) :
    (ds ++ rest).takeWhile isDigit = ds ∧ (ds ++ rest).dropWhile isDigit = rest := by
  have hstop : rest.takeWhile isDigit = [] ∧ rest.dropWhile isDigit = rest := by
    cases rest with
    | nil => exact ⟨rfl, rfl⟩
    | cons c rest => simp [hrest c rfl]
  rw [List.takeWhile_append_of_pos hds, List.dropWhile_append_of_pos hds, hstop.1, hstop.2]
  exact ⟨List.append_nil ds, rfl⟩

end Retouch.Number

namespace Retouch.Value

open Number

/-! ## The parts of a number -/

/-- Whether a text does not continue the number in front of it. -/
def EndsNumber (rest : List Char) : Prop :=
  ∀ c ∈ rest.head?, isDigit c = false ∧ c ≠ '.' ∧ c ≠ 'e' ∧ c ≠ 'E'

section

variable {ds ps rest : List Char} {negative : Bool}

variable (rest) in
theorem takeWhole_digits (hds : ∀ c ∈ ds, isDigit c = true) (hne : ds ≠ [])
    (hzero : ds = ['0'] ∨ ds.head? ≠ some '0') (hrest : ∀ c ∈ rest.head?, isDigit c = false) :
    takeWhole (ds ++ rest) = some (ds, rest) := by
  rcases hzero with rfl | hlead
  · rfl
  · obtain ⟨htake, hdrop⟩ := span_digits hds hrest
    obtain ⟨d, ds, rfl⟩ := List.exists_cons_of_ne_nil hne
    unfold takeWhole
    split
    · rename_i r hr
      cases hr
      exact absurd rfl hlead
    · simp only [htake, hdrop, List.isEmpty_cons, Bool.false_eq_true, if_false]

variable (rest) in
theorem takeFraction_digits (hps : ∀ c ∈ ps, isDigit c = true) (hne : ps ≠ [])
    (hrest : ∀ c ∈ rest.head?, isDigit c = false) :
    takeFraction ('.' :: (ps ++ rest)) = some (ps, rest) := by
  obtain ⟨htake, hdrop⟩ := span_digits hps hrest
  simp only [takeFraction, htake, hdrop, List.isEmpty_iff, hne, if_false]

theorem takeFraction_none (h : rest.head? ≠ some '.') : takeFraction rest = none := by
  unfold takeFraction
  split
  · exact absurd rfl h
  · rfl

theorem takeExponent?_none (h : ∀ c ∈ rest.head?, c ≠ 'e' ∧ c ≠ 'E') :
    takeExponent? rest = none := by
  cases rest with
  | nil => rfl
  | cons c rest => simp [takeExponent?, h c rfl]

variable (rest negative) in
theorem takeExponent?_digits (hds : ∀ c ∈ ds, isDigit c = true) (hne : ds ≠ [])
    (hrest : ∀ c ∈ rest.head?, isDigit c = false) :
    takeExponent? ('e' :: (if negative then '-' else '+') :: (ds ++ rest)) =
      some (signed negative (digitsNat ds), rest) := by
  obtain ⟨htake, hdrop⟩ := span_digits hds hrest
  cases negative <;> simp [takeExponent?, takeSign, htake, hdrop, hne]

/-! ## Numbers without sign -/

/-- A whole number is read from its digits, unless they are too many. -/
theorem readUnsigned_whole (hds : ∀ c ∈ ds, isDigit c = true) (hne : ds ≠ [])
    (hzero : ds = ['0'] ∨ ds.head? ≠ some '0') (hrest : EndsNumber rest) :
    readUnsigned negative (ds ++ rest) =
      if digitLimit < ds.length then .error (.tooManyDigits ds.length)
      else .ok (.int (signed negative (digitsNat ds)), rest) := by
  have hwhole := takeWhole_digits rest hds hne hzero fun c hc => (hrest c hc).1
  have hfraction : takeFraction rest = none :=
    takeFraction_none fun h => (hrest '.' (by rw [h]; rfl)).2.1 rfl
  have hexponent : takeExponent? rest = none := takeExponent?_none fun c hc => (hrest c hc).2.2
  simp [readUnsigned, hwhole, hfraction, hexponent]

/-- A double is read from digits with a point between them. -/
theorem readUnsigned_point (hds : ∀ c ∈ ds, isDigit c = true) (hne : ds ≠ [])
    (hzero : ds = ['0'] ∨ ds.head? ≠ some '0') (hps : ∀ c ∈ ps, isDigit c = true) (hps' : ps ≠ [])
    (hrest : EndsNumber rest) :
    readUnsigned negative (ds ++ '.' :: (ps ++ rest)) =
      .ok (.float (signedDouble negative
        (decimalDouble ⟨digitsNat (ds ++ ps), -(ps.length : ℤ)⟩)), rest) := by
  have hwhole := takeWhole_digits ('.' :: (ps ++ rest)) hds hne hzero
    fun c hc => by cases hc; rfl
  have hfraction := takeFraction_digits rest hps hps' fun c hc => (hrest c hc).1
  have hexponent : takeExponent? rest = none := takeExponent?_none fun c hc => (hrest c hc).2.2
  simp [readUnsigned, hwhole, hfraction, hexponent]

variable (negative) in
/-- A double is read from digits with an exponent, with or without a point. -/
theorem readUnsigned_exponent {es : List Char} (down : Bool) (hds : ∀ c ∈ ds, isDigit c = true)
    (hne : ds ≠ []) (hzero : ds = ['0'] ∨ ds.head? ≠ some '0')
    (hps : ∀ c ∈ ps, isDigit c = true) (hes : ∀ c ∈ es, isDigit c = true) (hes' : es ≠ [])
    (hrest : EndsNumber rest) :
    readUnsigned negative (ds ++ ((if ps = [] then [] else '.' :: ps) ++
        'e' :: (if down then '-' else '+') :: (es ++ rest))) =
      .ok (.float (signedDouble negative (decimalDouble
        ⟨digitsNat (ds ++ ps), signed down (digitsNat es) - (ps.length : ℤ)⟩)), rest) := by
  have hexponent := takeExponent?_digits rest down hes hes' fun c hc => (hrest c hc).1
  by_cases hnone : ps = []
  · subst hnone
    have hwhole := takeWhole_digits ('e' :: (if down then '-' else '+') :: (es ++ rest))
      hds hne hzero fun c hc => by cases hc; rfl
    have hfraction : takeFraction ('e' :: (if down then '-' else '+') :: (es ++ rest)) = none := rfl
    simp [readUnsigned, hwhole, hfraction, hexponent]
  · have hwhole := takeWhole_digits
      ('.' :: (ps ++ 'e' :: (if down then '-' else '+') :: (es ++ rest)))
      hds hne hzero fun c hc => by cases hc; rfl
    have hfraction := takeFraction_digits
      ('e' :: (if down then '-' else '+') :: (es ++ rest)) hps hnone
      fun c hc => by cases hc; rfl
    simp [readUnsigned, hnone, hwhole, hfraction, hexponent]

end

/-! ## Decimals -/

/-- Zeros at the end of the digits make up for a lower scale. -/
theorem value_shift (d : Decimal) (j : ℕ) :
    (Decimal.mk (d.digits * 10 ^ j) (d.scale - j)).value = d.value := by
  unfold Decimal.value
  rw [zpow_sub₀ (by norm_num : (10 : ℚ) ≠ 0), zpow_natCast]
  push_cast
  field_simp

/-- Whether characters begin with a digit and are read as a double that has a decimal of a given
    value, whatever follows. -/
def ReadsAs (cs : List Char) (v : ℚ) : Prop :=
  (∃ c r, cs = c :: r ∧ isDigit c = true) ∧
    ∃ d : Decimal, d.value = v ∧ ∀ negative rest, EndsNumber rest →
      readUnsigned negative (cs ++ rest) =
        .ok (.float (signedDouble negative (decimalDouble d)), rest)

theorem readsAs_point {ds ps : List Char} {d : Decimal} (hds : ∀ c ∈ ds, isDigit c = true)
    (hne : ds ≠ []) (hzero : ds = ['0'] ∨ ds.head? ≠ some '0') (hps : ∀ c ∈ ps, isDigit c = true)
    (hps' : ps ≠ []) {j : ℕ} (hdigits : digitsNat (ds ++ ps) = d.digits * 10 ^ j)
    (hscale : -(ps.length : ℤ) = d.scale - j) : ReadsAs (ds ++ '.' :: ps) d.value := by
  refine ⟨?_, ⟨d.digits * 10 ^ j, d.scale - j⟩, value_shift d j, fun negative rest hrest => ?_⟩
  · obtain ⟨c, r, rfl⟩ := List.exists_cons_of_ne_nil hne
    exact ⟨c, r ++ '.' :: ps, rfl, hds c List.mem_cons_self⟩
  · rw [List.append_assoc, List.cons_append, readUnsigned_point hds hne hzero hps hps' hrest,
      hdigits, hscale]

theorem exponentText_eq (l : Layout) (power : ℤ) :
    ∃ es, (l.exponentText power).toList =
        'e' :: (if decide (power < 0) then '-' else '+') :: es ∧
      (∀ c ∈ es, isDigit c = true) ∧ es ≠ [] ∧
        signed (decide (power < 0)) (digitsNat es) = power := by
  obtain ⟨k, hk⟩ : ∃ k, l.exponentDigits - (natText power.natAbs).length = k := ⟨_, rfl⟩
  refine ⟨List.replicate k '0' ++ Nat.toDigits 10 power.natAbs, ?_, ?_, ?_, ?_⟩
  · unfold Layout.exponentText
    simp only [hk]
    by_cases h : power < 0 <;> simp [h, zeros, natText]
  · intro c hc
    rcases List.mem_append.mp hc with hc | hc
    · exact isDigit_zeros hc
    · exact isDigit_of_mem_toDigits hc
  · simp
  · rw [digitsNat_append, digitsNat_replicate_zero, digitsNat_toDigits, zero_mul, zero_add]
    unfold signed
    split
    · rename_i h
      have := of_decide_eq_true h
      omega
    · rename_i h
      have : ¬ power < 0 := fun hneg => h (decide_eq_true hneg)
      omega

/-- Whether characters are the digits of a number. -/
structure Spells (ds : List Char) (n : ℕ) : Prop where
  digits : ∀ c ∈ ds, isDigit c = true
  ne_nil : ds ≠ []
  lead : ds.head? ≠ some '0'
  value : digitsNat ds = n

theorem spells_toDigits {n : ℕ} (hn : 0 < n) : Spells (Nat.toDigits 10 n) n :=
  ⟨fun _ hc => isDigit_of_mem_toDigits hc, Nat.toDigits_ne_nil, head_toDigits_ne_zero hn,
    digitsNat_toDigits n⟩

section

variable {ds : List Char} {d : Decimal} (h : Spells ds d.digits)

include h

/-- The leading digit may stand behind the point. -/
theorem Spells.readsAs_behind {k : ℕ} (hscale : d.scale + ds.length = -k) :
    ReadsAs (['0'] ++ '.' :: (List.replicate k '0' ++ ds)) d.value := by
  have hne := h.ne_nil
  refine readsAs_point (j := 0) (by simp [isDigit]) (by simp) (.inl rfl) ?_ (by simp [hne]) ?_ ?_
  · intro c hc
    rcases List.mem_append.mp hc with hc | hc
    · exact isDigit_zeros hc
    · exact h.digits c hc
  · rw [digitsNat_append, digitsNat_append, digitsNat_replicate_zero, h.value]
    simp [digitsNat]
  · rw [List.length_append, List.length_replicate]
    push_cast
    omega

/-- All digits may stand before the point, filled up with zeros. -/
theorem Spells.readsAs_before {k : ℕ} (hscale : d.scale = k) :
    ReadsAs ((ds ++ List.replicate k '0') ++ '.' :: ['0']) d.value := by
  have hne := h.ne_nil
  refine readsAs_point (j := k + 1) ?_ (by simp [hne]) (.inr ?_) (by simp [isDigit]) (by simp) ?_ ?_
  · intro c hc
    rcases List.mem_append.mp hc with hc | hc
    · exact h.digits c hc
    · exact isDigit_zeros hc
  · rw [List.head?_append_of_ne_nil _ hne]
    exact h.lead
  · rw [digitsNat_append, digitsNat_append, digitsNat_replicate_zero, h.value,
      List.length_replicate, pow_succ, ← mul_assoc]
    rfl
  · rw [List.length_singleton]
    push_cast
    omega

/-- The point may stand among the digits. -/
theorem Spells.readsAs_among {front : ℕ} (hpos : 0 < front) (hlong : front < ds.length)
    (hscale : d.scale + ds.length = front) :
    ReadsAs (ds.take front ++ '.' :: ds.drop front) d.value := by
  have hne := h.ne_nil
  have hrest : ds.drop front ≠ [] := by
    simp [List.drop_eq_nil_iff, hlong]
  refine readsAs_point (j := 0) (fun c hc => h.digits c (List.mem_of_mem_take hc)) ?_ (.inr ?_)
    (fun c hc => h.digits c (List.mem_of_mem_drop hc)) hrest ?_ ?_
  · simp [hne, hpos.ne']
  · rw [List.head?_take, if_neg hpos.ne']
    exact h.lead
  · rw [List.take_append_drop, h.value, pow_zero, mul_one]
  · rw [List.length_drop]
    omega

end

/-- One digit may stand before the point, and the others behind it, if there are others. -/
theorem Spells.readsAs_exponent {c : Char} {ps : List Char} {d : Decimal}
    (h : Spells (c :: ps) d.digits) (l : Layout) {power : ℤ}
    (hpower : d.scale + ps.length = power) :
    ReadsAs ([c] ++ ((if ps = [] then [] else '.' :: ps) ++ (l.exponentText power).toList))
      d.value := by
  obtain ⟨es, hexponent, hes, hes', hsigned⟩ := exponentText_eq l power
  rw [hexponent]
  refine ⟨⟨c, _, rfl, h.digits c List.mem_cons_self⟩, d, rfl, fun negative rest hrest => ?_⟩
  have hscale : power - (ps.length : ℤ) = d.scale := by omega
  have hfirst : ∀ d ∈ [c], isDigit d = true := by
    intro d hd
    rw [List.mem_singleton.mp hd]
    exact h.digits c List.mem_cons_self
  have hplaces : ∀ d ∈ ps, isDigit d = true := fun d hd => h.digits d (List.mem_cons_of_mem _ hd)
  have hread := readUnsigned_exponent negative (decide (power < 0)) hfirst (by simp)
    (.inr h.lead) hplaces hes hes' hrest
  rw [hsigned, hscale, show [c] ++ ps = c :: ps from rfl, h.value] at hread
  simpa [List.append_assoc] using hread

/-- A decimal is written as digits that are read as a double with the same decimal. -/
theorem readsAs_decimalText (l : Layout) {d : Decimal} (hd : 0 < d.digits) :
    ReadsAs (l.decimalText d).toList d.value := by
  obtain ⟨ds, hds⟩ : ∃ ds, Nat.toDigits 10 d.digits = ds := ⟨_, rfl⟩
  have hspells : Spells ds d.digits := hds ▸ spells_toDigits hd
  have hlen : 0 < ds.length := List.length_pos_iff.mpr hspells.ne_nil
  unfold Layout.decimalText
  simp only [hds]
  split
  · split
    · rename_i hpower
      obtain ⟨k, hk⟩ : ∃ k, (-(d.scale + (ds.length : ℤ) - 1)).toNat - 1 = k := ⟨_, rfl⟩
      have htext : ("0." ++ zeros k ++ String.ofList ds).toList =
          ['0'] ++ '.' :: (List.replicate k '0' ++ ds) := by
        simp [zeros]
      rw [hk, htext]
      exact hspells.readsAs_behind (by omega)
    · rename_i hpower
      obtain ⟨front, hfront⟩ : ∃ front, (d.scale + (ds.length : ℤ) - 1).toNat + 1 = front :=
        ⟨_, rfl⟩
      rw [hfront]
      rcases le_or_gt ds.length front with hshort | hlong
      · have htext : (String.ofList (ds.take front) ++ zeros (front - ds.length) ++ "." ++
            (if (ds.drop front).isEmpty then "0" else String.ofList (ds.drop front))).toList =
              (ds ++ List.replicate (front - ds.length) '0') ++ '.' :: ['0'] := by
          simp [zeros, List.take_of_length_le hshort, List.drop_of_length_le hshort]
        rw [htext]
        exact hspells.readsAs_before (by omega)
      · have hrest : ds.drop front ≠ [] := by
          simp [List.drop_eq_nil_iff, hlong]
        have htext : (String.ofList (ds.take front) ++ zeros (front - ds.length) ++ "." ++
            (if (ds.drop front).isEmpty then "0" else String.ofList (ds.drop front))).toList =
              ds.take front ++ '.' :: ds.drop front := by
          simp [zeros, List.isEmpty_iff, hrest, Nat.sub_eq_zero_of_le hlong.le]
        rw [htext]
        exact hspells.readsAs_among (by omega) hlong (by omega)
  · obtain ⟨c, ps, rfl⟩ := List.exists_cons_of_ne_nil hspells.ne_nil
    obtain ⟨power, hpower⟩ : ∃ power, d.scale + ((c :: ps).length : ℤ) - 1 = power := ⟨_, rfl⟩
    rw [hpower]
    have htext : (String.ofList ((c :: ps).take 1) ++ (if (c :: ps).length ≤ 1 then ""
        else "." ++ String.ofList ((c :: ps).drop 1)) ++ l.exponentText power).toList =
          [c] ++ ((if ps = [] then [] else '.' :: ps) ++ (l.exponentText power).toList) := by
      rw [String.toList_append]
      cases ps <;> simp
    rw [htext]
    refine hspells.readsAs_exponent l ?_
    rw [List.length_cons] at hpower
    push_cast at hpower
    omega

/-! ## Numbers with their sign -/

theorem readAtom_digit {c : Char} (hc : isDigit c = true) (r : List Char) :
    readAtom (c :: r) = readUnsigned false (c :: r) := by
  have hword : ∀ w : Char, isDigit w = false → ∀ r' : List Char, c :: r = w :: r' → False := by
    intro w hw r' h
    cases h
    exact absurd (hc.symm.trans hw) (by decide)
  rw [readAtom] <;> intro r' <;> exact hword _ rfl _

theorem readAtom_minus_digit {c : Char} (hc : isDigit c = true) (r : List Char) :
    readAtom ('-' :: c :: r) = readUnsigned true (c :: r) := by
  rw [readAtom]
  intro r' h
  cases h
  exact absurd hc (by decide)

/-- The text of a whole number begins with its sign or a digit. -/
theorem head_intText (n : ℤ) :
    ∃ c r, (intText n).toList = c :: r ∧ (c = '-' ∨ isDigit c = true) := by
  obtain ⟨c, r, hc⟩ := List.exists_cons_of_ne_nil (Nat.toDigits_ne_nil (b := 10) (n := n.natAbs))
  unfold intText natText
  split
  · rw [String.toList_append]
    exact ⟨'-', _, rfl, .inl rfl⟩
  · rw [String.toList_ofList, hc]
    exact ⟨c, r, rfl, .inr (isDigit_of_mem_toDigits (hc ▸ List.mem_cons_self))⟩

/-- A whole number is read back from its text, unless it has too many digits. -/
theorem readAtom_intText (n : ℤ) {rest : List Char} (hrest : EndsNumber rest) :
    readAtom ((intText n).toList ++ rest) =
      if digitLimit < (natText n.natAbs).length then
        .error (.tooManyDigits (natText n.natAbs).length)
      else .ok (.int n, rest) := by
  obtain ⟨ds, hds⟩ : ∃ ds, Nat.toDigits 10 n.natAbs = ds := ⟨_, rfl⟩
  have hdigits : ∀ c ∈ ds, isDigit c = true := fun c hc => isDigit_of_mem_toDigits (hds ▸ hc)
  have hne : ds ≠ [] := hds ▸ Nat.toDigits_ne_nil
  have hzero : ds = ['0'] ∨ ds.head? ≠ some '0' := by
    rcases Nat.eq_zero_or_pos n.natAbs with h | h
    · exact .inl (by rw [← hds, h]; rfl)
    · exact .inr (hds ▸ head_toDigits_ne_zero h)
  have hread : ∀ negative, readUnsigned negative (ds ++ rest) =
      if digitLimit < ds.length then .error (.tooManyDigits ds.length)
      else .ok (.int (signed negative n.natAbs), rest) := by
    intro negative
    rw [readUnsigned_whole hdigits hne hzero hrest, ← hds, digitsNat_toDigits]
  obtain ⟨c, r, hc⟩ := List.exists_cons_of_ne_nil hne
  have hfirst : isDigit c = true := hdigits c (by rw [hc]; exact List.mem_cons_self)
  unfold intText natText
  rw [hds, String.length_ofList]
  split
  · have hsigned : signed true n.natAbs = n := by
      unfold signed
      rw [if_pos rfl]
      omega
    rw [String.toList_append, String.toList_ofList, String.toList_ofList, ← hsigned,
      ← hread true, hc]
    exact readAtom_minus_digit hfirst (r ++ rest)
  · have hsigned : signed false n.natAbs = n := by
      unfold signed
      rw [if_neg (by decide)]
      omega
    rw [String.toList_ofList, ← hsigned, ← hread false, hc]
    exact readAtom_digit hfirst (r ++ rest)

/-- Characters that are read as a double are read with their sign. -/
theorem ReadsAs.readAtom {cs : List Char} {v : ℚ} (h : ReadsAs cs v) :
    ∃ d : Decimal, d.value = v ∧ ∀ negative rest, EndsNumber rest →
      Value.readAtom ((if negative then '-' :: cs else cs) ++ rest) =
        .ok (.float (signedDouble negative (decimalDouble d)), rest) := by
  obtain ⟨⟨c, r, rfl, hc⟩, d, hd, hread⟩ := h
  refine ⟨d, hd, fun negative rest hrest => ?_⟩
  rw [← hread negative rest hrest]
  cases negative
  · exact readAtom_digit hc (r ++ rest)
  · exact readAtom_minus_digit hc (r ++ rest)

/-- A double that is neither infinite nor no number is read back from its text in any layout. -/
theorem readAtom_floatText_of_finite (l : Layout) {x : Float} {negative : Bool} {m : ℕ} {e : ℤ}
    (hx : parts x = .finite negative m e) {rest : List Char} (hrest : EndsNumber rest) :
    readAtom ((l.text x).toList ++ rest) = .ok (.float x, rest) := by
  have hsign : ∀ size : String, (if negative then "-" ++ size else size).toList =
      if negative then '-' :: size.toList else size.toList := by
    intro size
    cases negative <;> simp
  unfold Layout.text
  simp only [hx, hsign]
  by_cases hm : m = 0
  · subst hm
    rw [if_pos rfl, eq_signedDouble_zero hx]
    have hpoint : ReadsAs (['0'] ++ '.' :: ['0']) (Decimal.mk 0 0).value :=
      readsAs_point (by simp [isDigit]) (by simp) (.inl rfl) (by simp [isDigit]) (by simp)
        (j := 1) rfl rfl
    obtain ⟨d, hd, hread⟩ := hpoint.readAtom
    have hdigits : d.digits = 0 := by
      have hten : (10 : ℚ) ^ d.scale ≠ 0 := by positivity
      simpa [Decimal.value, hten] using hd
    have hzero : decimalDouble d = 0.0 := by
      unfold decimalDouble
      rw [if_pos hdigits]
    have htext : "0.0".toList = ['0'] ++ '.' :: ['0'] := rfl
    rw [htext, hread negative rest hrest, hzero]
  · obtain ⟨h, -, -⟩ := eq_signedDouble_positive hx hm
    have hpos : 0 < (shortest m e).digits := (near_shortest h).digits_pos h
    obtain ⟨d, hd, hread⟩ := (readsAs_decimalText l hpos).readAtom
    rw [if_neg hm, hread negative rest hrest, signedDouble_decimalDouble hx hm hd]

/-- A double is read back from its text in data interchange, which has words for the others. -/
theorem readAtom_floatText (x : Float) {rest : List Char} (hrest : EndsNumber rest) :
    readAtom ((Layout.interchange.text x).toList ++ rest) = .ok (.float x, rest) := by
  cases hx : parts x with
  | notANumber =>
      rw [Layout.text, hx, eq_of_parts_notANumber hx]
      rfl
  | infinite negative =>
      rw [Layout.text, hx, eq_of_parts_infinite hx]
      cases negative <;> rfl
  | finite negative m e => exact readAtom_floatText_of_finite .interchange hx hrest

end Retouch.Value
