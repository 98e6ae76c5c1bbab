/-
  Doubles between their parts and their arithmetic.

  `parts` reads a double off its bits, and arithmetic unpacks it; the two agree
  (`parts_unpacks`), and a double is what it unpacks to (`ofModel_pack_unpack`).  Small whole
  numbers and the tabled powers of ten are doubles themselves.
-/
import Mathlib
import Retouch.Number.Binary
import Retouch.Proofs.Number.Rounding

namespace Retouch.Number

open Float.Model (UnpackedFloat Format)
open Float.Model.UnpackedFloat

/-! ## The parts of a double -/

/-- The sign of a part. -/
def signOf (negative : Bool) : Sign := if negative then .negative else .positive

/-- What the parts of a double say about it in the arithmetic of doubles. -/
def Parts.Unpacks : Parts → UnpackedFloat → Prop
  | .notANumber, u => u = .notANumber
  | .infinite negative, u => u = .infinity (signOf negative)
  | .finite negative m e, u =>
    m = 0 ∧ u = .zero (signOf negative) ∨
      Legal m e ∧ e ≤ 971 ∧ ∃ h, u = .finite (signOf negative) m e h

theorem parts_unpacks (x : Float) : (parts x).Unpacks x.toModel.unpack := by
  obtain ⟨b, hb⟩ : ∃ b : BitVec 64, x.toModel.toBits.toBitVec = b := ⟨_, rfl⟩
  have hbits : x.toBits.toNat = b.toNat := by rw [← hb]; rfl
  have hlt : b.toNat < 2 ^ 64 := b.isLt
  obtain ⟨sign, hsign⟩ : ∃ v, @unpackSign .binary64 b = v := ⟨_, rfl⟩
  obtain ⟨exponent, hexponent⟩ : ∃ v, @unpackExponent .binary64 b = v := ⟨_, rfl⟩
  obtain ⟨fraction, hfraction⟩ : ∃ v, @unpackMantissa .binary64 b = v := ⟨_, rfl⟩
  have hsign' : b.toNat / 2 ^ 63 = sign.toNat := by
    rw [← hsign, unpackSign_def, BitVec.extractLsb'_toNat, Nat.shiftRight_eq_div_pow]
    exact (Nat.mod_eq_of_lt (by show b.toNat / 2 ^ 63 < 2; omega)).symm
  have hexponent' : b.toNat / 2 ^ 52 % 2 ^ 11 = exponent.toNat := by
    rw [← hexponent, unpackExponent_def, BitVec.extractLsb'_toNat, Nat.shiftRight_eq_div_pow]
  have hfraction' : b.toNat % 2 ^ 52 = fraction.toNat := by
    rw [← hfraction, unpackMantissa_def, BitVec.extractLsb'_toNat, Nat.shiftRight_zero]
  have hnegative : Sign.ofBitVec sign = signOf (sign.toNat == 1) := by
    rcases (by decide : ∀ v : BitVec 1, v = 0#1 ∨ v = 1#1) sign with h | h <;> rw [h] <;> rfl
  unfold Float.Model.unpack UnpackedFloat.unpack parts
  rw [hb, hbits]
  simp only [twoTo, Nat.pow_eq, hsign, hexponent, hfraction, hsign', hexponent', hfraction', hnegative]
  generalize (sign.toNat == 1) = negative
  have hones : exponent = -1#_ ↔ exponent.toNat = 2047 := BitVec.toNat_inj.symm
  have hzeros : exponent = 0#_ ↔ exponent.toNat = 0 := BitVec.toNat_inj.symm
  have hempty : fraction = 0#_ ↔ fraction.toNat = 0 := BitVec.toNat_inj.symm
  have hsize : fraction.toNat < 2 ^ 52 := fraction.isLt
  have hbiased : exponent.toNat < 2 ^ 11 := exponent.isLt
  have hfull : (1#1 ++ fraction).toNat = 2 ^ 52 + fraction.toNat := by
    rw [BitVec.toNat_append, ← Nat.shiftLeft_add_eq_or_of_lt hsize]
    rfl
  have hbias : (Format.binary64.exponentBias : ℤ) + (52 : ℕ) = 1075 := rfl
  by_cases hspecial : exponent = -1#_
  · -- All bits of the exponent are set: an infinity, or no number.
    rw [if_pos (hones.mp hspecial), if_pos hspecial]
    by_cases hinf : fraction = 0#_
    · rw [if_pos (hempty.mp hinf), if_pos hinf]
      rfl
    · rw [if_neg fun h => hinf (hempty.mpr h), if_neg hinf]
      rfl
  rw [if_neg fun h => hspecial (hones.mpr h), if_neg hspecial]
  by_cases hsmall : exponent = 0#_
  · -- None is set: a zero, or a mantissa without a leading bit.
    rw [if_pos (hzeros.mp hsmall), if_pos hsmall]
    by_cases hzero : fraction = 0#_
    · rw [dif_pos hzero]
      exact .inl ⟨hempty.mp hzero, rfl⟩
    · have hpos : 0 < fraction.toNat := Nat.pos_of_ne_zero fun h => hzero (hempty.mpr h)
      have hleast : ((exponent.toNat : ℤ) - (Format.binary64.exponentBias + (52 : ℕ)) + 1) = -1074 := by
        rw [hzeros.mp hsmall, hbias]
        rfl
      rw [dif_neg hzero]
      refine .inr ⟨⟨hpos, by omega, le_rfl, .inr rfl⟩, by decide, hpos, ?_⟩
      simp only [hleast]
  · -- Otherwise the leading bit stands in front of the fraction.
    have hbiased₀ : exponent.toNat ≠ 0 := fun h => hsmall (hzeros.mpr h)
    have hbiased₁ : exponent.toNat ≠ 2047 := fun h => hspecial (hones.mpr h)
    rw [if_neg hbiased₀, if_neg hsmall]
    refine .inr ⟨⟨by omega, by omega, by omega, .inl (by omega)⟩, by omega, by omega, ?_⟩
    simp only [hfull, hbias]

/-- A double is what it unpacks to. -/
theorem ofModel_pack_unpack (x : Float) : Float.ofModel (.pack x.toModel.unpack) = x := by
  rw [← Float.toBits_inj]
  exact UInt64.toBitVec_inj.mp (pack_unpack_of_valid x.toModel.valid)

/-- Nothing is lost in packing a mantissa of 53 bits. -/
theorem unpack_pack_of_full {s : Sign} {m : ℕ} {e : ℤ} (h : Legal m e) (htop : e ≤ 971)
    (hmin : 2 ^ 52 ≤ m) : (Float.Model.pack (.finite s m e h.pos)).unpack = .finite s m e h.pos := by
  have hmax := h.lt
  have hleast := h.least
  have hlog : m.log2 + 1 = 53 := by
    have h₁ := (Nat.le_log2 h.pos.ne').mpr hmin
    have h₂ := (Nat.log2_lt h.pos.ne').mpr hmax
    omega
  obtain ⟨biased, hbiased⟩ : ∃ biased : ℕ, (biased : ℤ) = e + 1075 :=
    ⟨(e + 1075).toNat, by omega⟩
  have hpack : UnpackedFloat.pack .binary64 (.finite s m e h.pos) =
      packComponents .binary64 s (BitVec.ofNat 11 biased) (BitVec.ofNat 52 m) := by
    have htoNat : (e + (Format.binary64.exponentBias : ℤ) + (52 : ℕ)).toNat = biased := by
      show (e + 1023 + 52).toNat = biased
      omega
    unfold UnpackedFloat.pack
    simp only [htoNat]
    rw [if_neg (by show ¬ 2 ^ 11 ≤ biased + 1; omega),
      if_pos (show m.log2 + 1 = Format.binary64.mantissaBits from hlog)]
  have hexponent : (BitVec.ofNat 11 biased).toNat = biased := by
    rw [BitVec.toNat_ofNat]
    exact Nat.mod_eq_of_lt (by omega)
  have hfraction : (1#1 ++ BitVec.ofNat 52 m).toNat = m := by
    rw [BitVec.toNat_append, ← Nat.shiftLeft_add_eq_or_of_lt (BitVec.isLt _), BitVec.toNat_ofNat]
    show 2 ^ 52 + m % 2 ^ 52 = m
    omega
  show UnpackedFloat.unpack .binary64 (UnpackedFloat.pack .binary64 (.finite s m e h.pos)) = _
  rw [hpack]
  unfold UnpackedFloat.unpack
  simp only [unpackMantissa_packComponents, unpackExponent_packComponents,
    unpackSign_packComponents, Sign.ofBitVec_toBitVec]
  rw [if_neg, if_neg]
  · simp only [hfraction, hexponent, hbiased]
    congr 1
    show e + 1075 - 1075 = e
    omega
  · intro hzero
    rw [← BitVec.toNat_inj, hexponent] at hzero
    have : biased = 0 := hzero
    omega
  · intro hones
    rw [← BitVec.toNat_inj, hexponent] at hones
    have : biased = 2047 := hones
    omega

/-- Nothing is lost in packing a shorter mantissa, which has the least exponent. -/
theorem unpack_pack_of_short {s : Sign} {m : ℕ} (hm : 0 < m) (hshort : m < 2 ^ 52) :
    (Float.Model.pack (.finite s m (-1074) hm)).unpack = .finite s m (-1074) hm := by
  have hlog : ¬ m.log2 + 1 = Format.binary64.mantissaBits := by
    have hlt := (Nat.log2_lt hm.ne').mpr hshort
    show ¬ m.log2 + 1 = 53
    omega
  have hpack : UnpackedFloat.pack .binary64 (.finite s m (-1074) hm) =
      packComponents .binary64 s 0#_ (BitVec.ofNat 52 m) := by
    unfold UnpackedFloat.pack
    rw [if_neg (by decide), if_neg hlog]
  have hfraction : (BitVec.ofNat 52 m).toNat = m := by
    rw [BitVec.toNat_ofNat]
    exact Nat.mod_eq_of_lt hshort
  show UnpackedFloat.unpack .binary64 (UnpackedFloat.pack .binary64 (.finite s m (-1074) hm)) = _
  rw [hpack]
  unfold UnpackedFloat.unpack
  simp only [unpackMantissa_packComponents, unpackExponent_packComponents,
    unpackSign_packComponents, Sign.ofBitVec_toBitVec]
  rw [if_neg (by decide), if_pos trivial, dif_neg]
  · simp only [hfraction]
    rfl
  · intro hzero
    rw [← BitVec.toNat_inj, hfraction] at hzero
    exact hm.ne' hzero

theorem unpack_pack {s : Sign} {m : ℕ} {e : ℤ} (h : Legal m e) (htop : e ≤ 971) :
    (Float.Model.pack (.finite s m e h.pos)).unpack = .finite s m e h.pos := by
  rcases lt_or_ge m (2 ^ 52) with hshort | hfull
  · obtain rfl : e = -1074 := h.full.resolve_left (not_le.mpr hshort)
    exact unpack_pack_of_short h.pos hshort
  · exact unpack_pack_of_full h htop hfull

/-- Whether a double is a positive whole number, all bits of its mantissa in use. -/
def IsFull (x : Float) (n : ℕ) : Prop :=
  ∃ m e h, x.toModel.unpack = .finite .positive m e h ∧ 2 ^ 52 ≤ m ∧ (m * 2 ^ e : ℚ) = n

theorem isFull_toFloat {n : ℕ} (hpos : 0 < n) (hlt : n < 2 ^ 53) :
    IsFull n.toUInt64.toFloat n := by
  obtain ⟨j, hj, hmin, hlegal⟩ := exists_legal_shift hpos hlt
  obtain ⟨m, hm⟩ : ∃ m, n <<< j = m := ⟨_, rfl⟩
  have hm' : m = n * 2 ^ j := by rw [← hm, Nat.shiftLeft_eq]
  rw [← hm'] at hmin hlegal
  have hround : UnpackedFloat.round .binary64 .positive n 0 = .finite .positive m (-j) hlegal.pos := by
    have htarget : Format.binary64.targetExponent (Float.Model.totalExponent n 0) = -j := by
      rw [targetExponent_eq]
      omega
    have hdecrease : decreaseExponent n 0 (-j) = (m, -(j : ℤ)) := by
      have hshift : (0 - -(j : ℤ)).toNat = j := by omega
      unfold decreaseExponent
      simp only [hshift, hm]
      rw [zero_sub]
    unfold UnpackedFloat.round
    simp only [htarget, hdecrease]
    refine roundWithAccuracy_of_near hlegal (v := m * 2 ^ (-j : ℤ)) ?_ ?_ Near.self
    · rw [mul_div_cancel_right₀ _ (by positivity)]
      exact Marks.exact m
    · have := (Nat.le_log2 hlegal.pos.ne').mpr hmin
      rw [targetExponent_eq]
      omega
  have hunpack : UnpackedFloat.ofUInt64 .binary64 n.toUInt64 =
      .finite .positive m (-j) hlegal.pos := by
    have htoNat : n.toUInt64.toNat = n := by
      rw [Nat.toUInt64_eq, UInt64.toNat_ofNat']
      omega
    have hcompare : compare (n : ℤ) 0 = .gt := Int.compare_eq_gt.mpr (by exact_mod_cast hpos)
    unfold UnpackedFloat.ofUInt64 UnpackedFloat.ofNat UnpackedFloat.ofInt UnpackedFloat.normalize
    rw [htoNat, hcompare]
    exact hround
  refine ⟨m, -j, hlegal.pos, ?_, hmin, ?_⟩
  · show (Float.Model.pack (UnpackedFloat.ofUInt64 .binary64 n.toUInt64)).unpack = _
    rw [hunpack]
    exact unpack_pack hlegal (by omega)
  · rw [hm', zpow_neg, zpow_natCast]
    push_cast
    field_simp

theorem isFull_powersOfTen {k : ℕ} (hk : k < Float.exactlyRepresentablePowersOfTen.size) :
    IsFull Float.exactlyRepresentablePowersOfTen[k] (10 ^ k) := by
  -- A power `10 ^ k` with leading bit `l` is the mantissa `10 ^ k · 2 ^ (52 - l)`, without rest.
  have htable : ∀ k : Fin 23, let l := Nat.log2 (10 ^ k.val)
      let m := 10 ^ k.val * 2 ^ 52 / 2 ^ l
      parts Float.exactlyRepresentablePowersOfTen[k] = .finite false m ((l : ℤ) - 52) ∧
        2 ^ 52 ≤ m ∧ m * 2 ^ l = 10 ^ k.val * 2 ^ 52 := by
    decide
  obtain ⟨hparts, hmin, hvalue⟩ := htable ⟨k, hk⟩
  obtain ⟨l, hl⟩ : ∃ l, Nat.log2 (10 ^ k) = l := ⟨_, rfl⟩
  simp only [hl] at hparts hmin hvalue
  generalize 10 ^ k * 2 ^ 52 / 2 ^ l = m at *
  have hunpacks := parts_unpacks Float.exactlyRepresentablePowersOfTen[k]
  rw [show parts Float.exactlyRepresentablePowersOfTen[k] = _ from hparts] at hunpacks
  rcases hunpacks with ⟨hzero, -⟩ | ⟨-, -, hpos, hunpack⟩
  · omega
  · refine ⟨m, _, hpos, hunpack, hmin, ?_⟩
    have hvalue' : (m : ℚ) * 2 ^ l = 10 ^ k * 2 ^ 52 := by exact_mod_cast hvalue
    rw [zpow_sub₀ two_ne_zero, zpow_natCast, ← mul_div_assoc, hvalue']
    push_cast
    field_simp
    norm_num

end Retouch.Number
