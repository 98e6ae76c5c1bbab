/-
  Doubles read back from their decimals.

  A decimal that is near to a double is read as that double (`decimalDouble_of_near`), whichever of
  the ways to compute it is taken, and the shortest decimal of a double is near to it.  So a double
  written in decimal is read back unchanged (`signedDouble_decimalDouble`), and the digits of a
  whole number that fits a mantissa are read as that number (`whole?_decimalDouble`).
-/
import Retouch.Number.Reading
import Retouch.Proofs.Number.Shortest
import Retouch.Proofs.Number.Unpack

namespace Retouch.Number

open Float.Model (UnpackedFloat Format)
open Float.Model.UnpackedFloat

section

variable {m : ℕ} {e : ℤ}

/-! ## Doubles by their parts -/

/-- The positive double with a mantissa and an exponent. -/
def positive (h : Legal m e) : Float := .ofModel (.pack (.finite .positive m e h.pos))

/-- A double other than zero is its positive double with the sign. -/
theorem eq_signedDouble_positive {x : Float} {negative : Bool} (hx : parts x = .finite negative m e)
    (hm : m ≠ 0) : ∃ h : Legal m e, e ≤ 971 ∧ x = signedDouble negative (positive h) := by
  have hunpacks := parts_unpacks x
  rw [hx] at hunpacks
  rcases hunpacks with ⟨hzero, -⟩ | ⟨h, htop, _, hunpack⟩
  · exact absurd hzero hm
  · refine ⟨h, htop, ?_⟩
    rw [← ofModel_pack_unpack x, hunpack]
    cases negative
    · rfl
    · show _ = Float.ofModel (.pack (UnpackedFloat.neg (Float.Model.pack _).unpack))
      rw [unpack_pack h htop]
      rfl

/-- The parts of a positive double, with a sign. -/
theorem parts_signedDouble_positive (h : Legal m e) (htop : e ≤ 971)
    (negative : Bool) : parts (signedDouble negative (positive h)) = .finite negative m e := by
  obtain ⟨x, hx⟩ : ∃ x, signedDouble negative (positive h) = x := ⟨_, rfl⟩
  have hunpack : x.toModel.unpack = .finite (signOf negative) m e h.pos := by
    rw [← hx]
    cases negative
    · exact unpack_pack h htop
    · show (Float.Model.pack (UnpackedFloat.neg (Float.Model.pack _).unpack)).unpack = _
      rw [unpack_pack h htop]
      exact unpack_pack h htop
  have hunpacks := parts_unpacks x
  rw [hx]
  cases hparts : parts x with
  | notANumber =>
      rw [hparts, hunpack] at hunpacks
      cases hunpacks
  | infinite negative' =>
      rw [hparts, hunpack] at hunpacks
      cases hunpacks
  | finite negative' m' e' =>
      rw [hparts, hunpack] at hunpacks
      rcases hunpacks with ⟨-, hzero⟩ | ⟨-, -, _, heq⟩
      · cases hzero
      · obtain ⟨hsign, rfl, rfl⟩ := UnpackedFloat.finite.inj heq
        obtain rfl : negative = negative' := by
          cases negative <;> cases negative' <;> first | rfl | cases hsign
        rfl

theorem natAbs_signed (negative : Bool) (m : ℕ) : (signed negative m).natAbs = m := by
  cases negative <;> simp [signed]

/-- A double that is whole has less digits than are read. -/
theorem natAbs_lt_of_whole? {x : Float} {n : ℤ} (h : whole? x = some n) :
    n.natAbs < 10 ^ digitLimit := by
  have hten : 2 ^ digitLimit ≤ 10 ^ digitLimit := Nat.pow_le_pow_left (by decide) _
  unfold whole? at h
  split at h
  · rename_i negative m e hx
    split at h
    · obtain rfl := Option.some.inj h
      have hunpacks := parts_unpacks x
      rw [hx] at hunpacks
      rcases hunpacks with ⟨rfl, -⟩ | ⟨hlegal, htop, -⟩
      · have hzero : truncScaled (signed negative 0) e = 0 := by
          cases negative <;> simp [truncScaled, signed]
        rw [hzero]
        exact Nat.pow_pos (by decide)
      · unfold truncScaled
        split
        · have hpower : 53 + e.toNat ≤ digitLimit := by
            unfold digitLimit
            omega
          rw [Int.natAbs_mul, natAbs_signed, Int.natAbs_natCast, twoTo, Nat.pow_eq]
          calc m * 2 ^ e.toNat < 2 ^ 53 * 2 ^ e.toNat := by
                gcongr
                exact hlegal.lt
            _ = 2 ^ (53 + e.toNat) := (Nat.pow_add 2 53 e.toNat).symm
            _ ≤ 2 ^ digitLimit := Nat.pow_le_pow_right (by decide) hpower
            _ ≤ 10 ^ digitLimit := hten
        · rw [Int.natAbs_tdiv, natAbs_signed]
          calc _ ≤ m := Nat.div_le_self _ _
            _ < 2 ^ 53 := hlegal.lt
            _ ≤ 2 ^ digitLimit := Nat.pow_le_pow_right (by decide) (by decide)
            _ ≤ 10 ^ digitLimit := hten
    · cases h
  · cases h

theorem eq_signedDouble_zero {x : Float} {negative : Bool} (hx : parts x = .finite negative 0 e) :
    x = signedDouble negative 0.0 := by
  have hunpacks := parts_unpacks x
  rw [hx] at hunpacks
  rcases hunpacks with ⟨-, hunpack⟩ | ⟨h, -⟩
  · rw [← ofModel_pack_unpack x, hunpack]
    cases negative <;> decide
  · exact absurd h.pos (by decide)

theorem eq_of_parts_infinite {x : Float} {negative : Bool} (hx : parts x = .infinite negative) :
    x = signedDouble negative (1.0 / 0.0) := by
  have hunpacks := parts_unpacks x
  rw [hx] at hunpacks
  rw [← ofModel_pack_unpack x, show x.toModel.unpack = _ from hunpacks]
  cases negative <;> decide

theorem eq_of_parts_notANumber {x : Float} (hx : parts x = .notANumber) : x = 0.0 / 0.0 := by
  have hunpacks := parts_unpacks x
  rw [hx] at hunpacks
  rw [← ofModel_pack_unpack x, show x.toModel.unpack = _ from hunpacks]
  decide

/-! ## Decimals near to a double -/

/-- The values near to a double lie between powers of two. -/
theorem Near.bounds {v : ℚ} (hv : Near m e v) (h : Legal m e) :
    (2 : ℚ) ^ (e - 1) ≤ v ∧ v < 2 ^ (53 + e) := by
  have hm : (1 : ℚ) ≤ m := by exact_mod_cast h.pos
  have hm' : (m : ℚ) + 1 ≤ 2 ^ 53 := by exact_mod_cast h.lt
  have hp : (0 : ℚ) < 2 ^ e := by positivity
  constructor
  · calc (2 : ℚ) ^ (e - 1) = 1 / 2 * 2 ^ e := by
          rw [zpow_sub_one₀ two_ne_zero]
          ring
      _ ≤ ((m : ℚ) - 1 / 2) * 2 ^ e := by
          gcongr
          linarith
      _ ≤ v := hv.low
  · calc v ≤ ((m : ℚ) + 1 / 2) * 2 ^ e := hv.high
      _ < 2 ^ 53 * 2 ^ e := by
          gcongr
          linarith
      _ = 2 ^ (53 + e) := by
          rw [zpow_add₀ two_ne_zero]
          norm_cast

/-- A value near to a double is not zero. -/
theorem Near.digits_pos {d : ℕ} {q : ℚ} (hv : Near m e (d * q)) (h : Legal m e) : 0 < d := by
  refine Nat.pos_of_ne_zero ?_
  rintro rfl
  have hp : (0 : ℚ) < 2 ^ (e - 1) := by positivity
  have hmin := (hv.bounds h).1
  rw [Nat.cast_zero, zero_mul] at hmin
  exact absurd hp (not_lt.mpr hmin)

theorem two_zpow_le_ten_zpow (k : ℕ) : (2 : ℚ) ^ (3 * k) ≤ 10 ^ k := by
  rw [pow_mul]
  gcongr
  norm_num

/-- A power of ten that is no more than a value near to a double is within the range of doubles. -/
theorem Near.power_lt {v : ℚ} (hv : Near m e v) (h : Legal m e) {j : ℕ} (hj : (10 : ℚ) ^ j ≤ v) :
    3 * (j : ℤ) < 53 + e := by
  have hpow : (2 : ℚ) ^ ((3 * j : ℕ) : ℤ) < 2 ^ (53 + e) := by
    calc (2 : ℚ) ^ ((3 * j : ℕ) : ℤ) ≤ 10 ^ j := by
          rw [zpow_natCast]
          exact two_zpow_le_ten_zpow j
      _ ≤ v := hj
      _ < 2 ^ (53 + e) := (hv.bounds h).2
  exact_mod_cast (zpow_lt_zpow_iff_right₀ one_lt_two).mp hpow

/-- The general way to a double from a decimal: one exact product or quotient, rounded once. -/
theorem unpacked_ofScientific_of_near (h : Legal m e) (htop : e ≤ 971) {d : ℕ} {k : ℤ}
    (hv : Near m e (d * 10 ^ k)) :
    UnpackedFloat.ofScientific .binary64 d k = .finite .positive m e h.pos := by
  have hmin := (hv.bounds h).1
  have hleast := h.least
  have hd := hv.digits_pos h
  have hd' : (1 : ℚ) ≤ d := by exact_mod_cast hd
  -- Exponents that are cut off belong to no double: the power of ten is too large or too small.
  have hlarge : ¬ k > 2 ^ 11 := by
    intro hk
    obtain ⟨j, rfl⟩ := Int.eq_ofNat_of_zero_le (show 0 ≤ k by omega)
    have hpow : (10 : ℚ) ^ j ≤ d * 10 ^ (j : ℤ) := by
      rw [zpow_natCast]
      exact le_mul_of_one_le_left (by positivity) hd'
    have := hv.power_lt h hpow
    omega
  have hsmall : ¬ k < -((2 ^ 11 : ℤ) + d.log2) := by
    intro hk
    obtain ⟨j, hj⟩ : ∃ j : ℕ, k = -j := ⟨(-k).toNat, by omega⟩
    subst hj
    have hp : (0 : ℚ) < 10 ^ j := by positivity
    have hbits : (d : ℚ) ≤ 2 ^ (d.log2 + 1) := by exact_mod_cast Nat.lt_log2_self.le
    have hpow : (2 : ℚ) ^ (e - 1) ≤ 2 ^ ((d.log2 : ℤ) + 1 - 3 * j) := by
      calc (2 : ℚ) ^ (e - 1) ≤ d * 10 ^ (-j : ℤ) := hmin
        _ = d / 10 ^ j := by rw [zpow_neg, zpow_natCast]; rfl
        _ ≤ 2 ^ (d.log2 + 1) / 2 ^ (3 * j) := by
            gcongr
            exact two_zpow_le_ten_zpow j
        _ = 2 ^ ((d.log2 : ℤ) + 1 - 3 * j) := by
            rw [zpow_sub₀ two_ne_zero]
            norm_cast
    have := (zpow_le_zpow_iff_right₀ one_lt_two).mp hpow
    omega
  unfold UnpackedFloat.ofScientific
  rw [dif_neg hd.ne', if_neg hlarge, if_neg hsmall]
  split
  · -- The product is computed with room for 53 bits, which the shift gives.
    rename_i hk
    obtain ⟨j, rfl⟩ := Int.eq_ofNat_of_zero_le hk
    refine mul_of_near h ?_ ?_
    · rw [Nat.shiftLeft_eq]
      show 2 ^ 53 ≤ d * 2 ^ 53 * 10 ^ j
      have : 0 < 10 ^ j := by positivity
      nlinarith
    · have hshift : ((d <<< Format.binary64.mantissaBits : ℕ) : ℚ) *
          2 ^ (-(Format.binary64.mantissaBits : ℕ) : ℤ) = d := by
        rw [Nat.shiftLeft_eq, zpow_neg, zpow_natCast]
        push_cast
        field_simp
      rw [hshift]
      simpa using hv
  · obtain ⟨j, hj⟩ : ∃ j : ℕ, k = -j := ⟨(-k).toNat, by omega⟩
    subst hj
    refine div_of_near h ?_
    simpa [div_eq_mul_inv] using hv

/-- Both ways to a double from a decimal lead to the one that the decimal is near to. -/
theorem ofScientific_of_near (h : Legal m e) (htop : e ≤ 971) {d k : ℕ} {down : Bool}
    (hv : Near m e (d * 10 ^ (if down then -(k : ℤ) else k))) :
    Float.ofScientific d down k = positive h := by
  have hd := hv.digits_pos h
  unfold Float.ofScientific
  split
  · -- The digits and the power of ten are doubles themselves.
    rename_i hexact
    obtain ⟨m₁, e₁, h₁, hunpack₁, hfull₁, hvalue₁⟩ := isFull_toFloat hd hexact.1
    have hk : k < Float.exactlyRepresentablePowersOfTen.size := Nat.lt_succ_of_le hexact.2
    obtain ⟨m₂, e₂, h₂, hunpack₂, hfull₂, hvalue₂⟩ := isFull_powersOfTen hk
    push_cast at hvalue₂
    cases down
    · have hmul : UnpackedFloat.mul .binary64 (.finite .positive m₁ e₁ h₁)
          (.finite .positive m₂ e₂ h₂) = .finite .positive m e h.pos := by
        refine mul_of_near h (by nlinarith) ?_
        rw [hvalue₁, hvalue₂]
        simpa using hv
      show Float.ofModel (.pack (UnpackedFloat.mul .binary64 d.toUInt64.toFloat.toModel.unpack
        Float.exactlyRepresentablePowersOfTen[k].toModel.unpack)) = _
      rw [hunpack₁, hunpack₂, hmul]
      rfl
    · have hdiv : UnpackedFloat.div .binary64 (.finite .positive m₁ e₁ h₁)
          (.finite .positive m₂ e₂ h₂) = .finite .positive m e h.pos := by
        refine div_of_near h ?_
        rw [hvalue₁, hvalue₂]
        simpa [div_eq_mul_inv] using hv
      show Float.ofModel (.pack (UnpackedFloat.div .binary64 d.toUInt64.toFloat.toModel.unpack
        Float.exactlyRepresentablePowersOfTen[k].toModel.unpack)) = _
      rw [hunpack₁, hunpack₂, hdiv]
      rfl
  · -- Otherwise the decimal goes the general way.
    have hpower : (if down then Int.negOfNat k else Int.ofNat k) =
        if down then -(k : ℤ) else k := by
      cases down
      · rfl
      · exact Int.negOfNat_eq
    show Float.ofModel (.pack (UnpackedFloat.ofScientific .binary64 d
      (if down then Int.negOfNat k else Int.ofNat k))) = _
    rw [hpower, unpacked_ofScientific_of_near h htop hv]
    rfl

/-- The number of digits of a decimal bounds its value. -/
theorem value_bounds {d : Decimal} (hd : 0 < d.digits) :
    (10 : ℚ) ^ ((digitCount d.digits : ℤ) + d.scale - 1) ≤ d.value ∧
      d.value < 10 ^ ((digitCount d.digits : ℤ) + d.scale) := by
  have hten : (10 : ℚ) ≠ 0 := by norm_num
  have hcount : 0 < digitCount d.digits := Nat.length_toDigits_pos
  have hp : (0 : ℚ) < 10 ^ d.scale := by positivity
  have hlow : (10 : ℚ) ^ (digitCount d.digits - 1) ≤ d.digits := by
    exact_mod_cast pow_digitCount_le hd
  have hhigh : (d.digits : ℚ) < 10 ^ digitCount d.digits := by
    exact_mod_cast (Nat.length_toDigits_le_iff (b := 10) (by decide) hcount).mp le_rfl
  unfold Decimal.value
  constructor
  · have hsplit : (digitCount d.digits : ℤ) + d.scale - 1 =
        (digitCount d.digits - 1 : ℕ) + d.scale := by omega
    rw [hsplit, zpow_add₀ hten, zpow_natCast]
    gcongr
  · rw [zpow_add₀ hten, zpow_natCast]
    gcongr

/-- A decimal that is near to a positive double is read as that double. -/
theorem decimalDouble_of_near (h : Legal m e) (htop : e ≤ 971) {d : Decimal}
    (hv : Near m e d.value) : decimalDouble d = positive h := by
  have hmin := (hv.bounds h).1
  have hleast := h.least
  have hd : 0 < d.digits := Near.digits_pos hv h
  obtain ⟨hlow, hhigh⟩ := value_bounds hd
  have hlarge : ¬ 400 < (digitCount d.digits : ℤ) + d.scale := by
    intro hsize
    obtain ⟨j, hj⟩ : ∃ j : ℕ, (digitCount d.digits : ℤ) + d.scale - 1 = j :=
      Int.eq_ofNat_of_zero_le (by omega)
    rw [hj, zpow_natCast] at hlow
    have := hv.power_lt h hlow
    omega
  have hsmall : ¬ (digitCount d.digits : ℤ) + d.scale < -400 := by
    intro hsize
    obtain ⟨j, hj⟩ : ∃ j : ℕ, (digitCount d.digits : ℤ) + d.scale = -j :=
      ⟨(-((digitCount d.digits : ℤ) + d.scale)).toNat, by omega⟩
    have hpow : (2 : ℚ) ^ (e - 1) < 2 ^ (-(3 * j : ℕ) : ℤ) := by
      calc (2 : ℚ) ^ (e - 1) ≤ d.value := hmin
        _ < 10 ^ (-j : ℤ) := by rw [← hj]; exact hhigh
        _ ≤ 2 ^ (-(3 * j : ℕ) : ℤ) := by
            rw [zpow_neg, zpow_neg, zpow_natCast, zpow_natCast]
            gcongr
            exact two_zpow_le_ten_zpow j
    have := (zpow_lt_zpow_iff_right₀ one_lt_two).mp hpow
    push_cast at this
    omega
  unfold decimalDouble
  simp only [hd.ne', hlarge, hsmall, if_false]
  split
  · rename_i hscale
    refine ofScientific_of_near h htop ?_
    rw [if_neg (by decide), Int.toNat_of_nonneg hscale]
    exact hv
  · refine ofScientific_of_near h htop ?_
    rw [if_pos rfl, Int.toNat_of_nonneg (by omega), neg_neg]
    exact hv

/-- A double is read back from every decimal with the value of its shortest one. -/
theorem signedDouble_decimalDouble {x : Float} {negative : Bool}
    (hx : parts x = .finite negative m e) (hm : m ≠ 0) {d : Decimal}
    (hd : d.value = (shortest m e).value) : signedDouble negative (decimalDouble d) = x := by
  obtain ⟨h, htop, hsign⟩ := eq_signedDouble_positive hx hm
  rw [decimalDouble_of_near h htop (hd ▸ near_shortest h), hsign]

end

/-! ## Whole numbers -/

/-- A whole number is read off a mantissa that it was shifted up to. -/
theorem whole?_of_shifted {x : Float} {negative : Bool} {n j : ℕ}
    (hx : parts x = .finite negative (n * 2 ^ j) (-j)) : whole? x = some (signed negative n) := by
  have hpos : (0 : ℤ) < twoTo j := by exact_mod_cast twoTo_pos j
  have hsigned : signed negative (n * 2 ^ j) = signed negative n * twoTo j := by
    cases negative <;> simp [signed, twoTo]
  have hexponent : (-(-j : ℤ)).toNat = j := by omega
  have hwhole : isWholeScaled (signed negative (n * 2 ^ j)) (-j) = true := by
    unfold isWholeScaled
    rw [hsigned, hexponent]
    simp
  have htrunc : truncScaled (signed negative (n * 2 ^ j)) (-j) = signed negative n := by
    unfold truncScaled
    rw [hsigned, hexponent]
    split
    · rename_i hj
      obtain rfl : j = 0 := by omega
      simp [twoTo]
    · exact Int.mul_tdiv_cancel _ hpos.ne'
  unfold whole?
  rw [hx]
  simp only [hwhole, htrunc, if_true]

/-- The digits of a whole number of up to 53 bits are read as the double that is the number. -/
theorem whole?_decimalDouble {n : ℕ} (hlt : n < 2 ^ 53) (negative : Bool) :
    whole? (signedDouble negative (decimalDouble ⟨n, 0⟩)) = some (signed negative n) := by
  rcases Nat.eq_zero_or_pos n with rfl | hpos
  · cases negative <;> decide +kernel
  · obtain ⟨j, hj, -, h⟩ := exists_legal_shift hpos hlt
    have hvalue : (Decimal.mk n 0).value = (n * 2 ^ j : ℕ) * 2 ^ (-j : ℤ) := by
      rw [Decimal.value, zpow_neg, zpow_natCast]
      push_cast
      field_simp
    have hnear : Near (n * 2 ^ j) (-j) (Decimal.mk n 0).value := hvalue ▸ Near.self
    rw [decimalDouble_of_near h (by omega) hnear]
    exact whole?_of_shifted (parts_signedDouble_positive h (by omega) negative)

end Retouch.Number
