/-
  Rounding to the nearest double.

  The arithmetic of doubles computes a mantissa with two marks, which say how far the exact value
  is above it, and rounds by the marks.  `Marks` is what they mean, `Near` says which values belong
  to a double, and a value that is near to a double is rounded to it (`roundWithAccuracy_of_near`).
  From this follow products and quotients (`mul_of_near`, `div_of_near`).
-/
import Mathlib

namespace Retouch.Number

open Float.Model (UnpackedFloat Format)
open Float.Model.UnpackedFloat

/-! ## Mantissas with marks -/

/-- Whether a mantissa stands for an exact value, by the marks of the bits that were cut off. -/
def Marks (em : ExtendedMantissa) (q : ℚ) : Prop :=
  match em.roundBit, em.stickyBit with
  | false, false => q = em.mantissa
  | false, true => (em.mantissa : ℚ) < q ∧ q < em.mantissa + 1 / 2
  | true, false => q = em.mantissa + 1 / 2
  | true, true => (em.mantissa : ℚ) + 1 / 2 < q ∧ q < em.mantissa + 1

namespace Marks

variable {em : ExtendedMantissa} {q : ℚ}

theorem exact (m : ℕ) : Marks (.ofMantissaAndAccuracy m .exact) m := rfl

theorem le (h : Marks em q) : (em.mantissa : ℚ) ≤ q := by
  obtain ⟨m, r, s⟩ := em
  cases r <;> cases s <;> simp only [Marks] at h ⊢ <;> linarith

theorem lt (h : Marks em q) : q < em.mantissa + 1 := by
  obtain ⟨m, r, s⟩ := em
  cases r <;> cases s <;> simp only [Marks] at h ⊢ <;> linarith

theorem shiftRightOne (h : Marks em q) : Marks em.shiftRightOne (q / 2) := by
  obtain ⟨m, r, s⟩ := em
  -- What is cut off is the last bit of the mantissa, so its parity decides the new marks.
  obtain ⟨k, rfl | rfl⟩ := Nat.even_or_odd' m
  · have hhalf : 2 * k / 2 = k ∧ 2 * k % 2 = 0 := by omega
    cases r <;> cases s <;>
      simp only [Marks, ExtendedMantissa.shiftRightOne, hhalf, Bool.or_false, Bool.or_true] at h ⊢ <;>
      push_cast at h ⊢ <;> first | linarith | constructor <;> linarith
  · have hhalf : (2 * k + 1) / 2 = k ∧ (2 * k + 1) % 2 = 1 := by omega
    cases r <;> cases s <;>
      simp only [Marks, ExtendedMantissa.shiftRightOne, hhalf, Bool.or_false, Bool.or_true] at h ⊢ <;>
      push_cast at h ⊢ <;> first | linarith | constructor <;> linarith

theorem shiftRight (h : Marks em q) (n : ℕ) : Marks (em >>> n) (q / 2 ^ n) := by
  show Marks (n.repeat ExtendedMantissa.shiftRightOne em) (q / 2 ^ n)
  induction n with
  | zero => simpa [Nat.repeat] using h
  | succ n ih =>
      rw [Nat.repeat, pow_succ, div_mul_eq_div_div]
      exact ih.shiftRightOne

/-- A mantissa is rounded to the whole number that is nearest to the value, the even one of two. -/
theorem rounded_eq (h : Marks em q) {m : ℕ} (hlow : (m : ℚ) - 1 / 2 ≤ q) (hhigh : q ≤ m + 1 / 2)
    (hodd : m % 2 = 1 → (m : ℚ) - 1 / 2 < q ∧ q < m + 1 / 2) : em.roundedMantissa = m := by
  have hle := h.le
  have hlt := h.lt
  have hnear : m = em.mantissa ∨ m = em.mantissa + 1 := by
    have h₁ : (m : ℚ) < em.mantissa + 2 := by linarith
    have h₂ : (em.mantissa : ℚ) < m + 1 := by linarith
    norm_cast at h₁ h₂
    omega
  obtain ⟨n, r, s⟩ := em
  cases r <;> cases s <;>
    simp only [Marks, ExtendedMantissa.roundedMantissa, ExtendedMantissa.accuracy,
      Accuracy.roundToNearestEven] at h hnear ⊢
  · rcases hnear with rfl | rfl
    · rfl
    · push_cast at hlow; linarith
  · rcases hnear with rfl | rfl
    · rfl
    · push_cast at hlow; linarith
  · rcases hnear with rfl | rfl
    · rcases Nat.mod_two_eq_zero_or_one m with hm | hm
      · omega
      · linarith [(hodd hm).2]
    · rcases Nat.mod_two_eq_zero_or_one n with hm | hm
      · have := (hodd (by omega)).1
        push_cast at this
        linarith
      · omega
  · rcases hnear with rfl | rfl
    · linarith
    · rfl

end Marks

/-- The mantissa and the exponent of a positive double. -/
structure Legal (m : ℕ) (e : ℤ) : Prop where
  pos : 0 < m
  lt : m < 2 ^ 53
  least : -1074 ≤ e
  full : 2 ^ 52 ≤ m ∨ e = -1074

/-- Shifted up until it has 53 bits, a whole number is a mantissa, and nothing is cut off. -/
theorem exists_legal_shift {n : ℕ} (hpos : 0 < n) (hlt : n < 2 ^ 53) :
    ∃ j : ℕ, n.log2 + j = 52 ∧ 2 ^ 52 ≤ n * 2 ^ j ∧ Legal (n * 2 ^ j) (-j) := by
  have hlog : n.log2 < 53 := (Nat.log2_lt hpos.ne').mpr hlt
  obtain ⟨j, hj⟩ : ∃ j, n.log2 + j = 52 := ⟨52 - n.log2, by omega⟩
  have hmin : 2 ^ 52 ≤ n * 2 ^ j := by
    calc 2 ^ 52 = 2 ^ n.log2 * 2 ^ j := by rw [← pow_add, hj]
      _ ≤ n * 2 ^ j := Nat.mul_le_mul_right _ (Nat.log2_self_le hpos.ne')
  have hmax : n * 2 ^ j < 2 ^ 53 := by
    calc n * 2 ^ j
      _ < 2 ^ (n.log2 + 1) * 2 ^ j := Nat.mul_lt_mul_of_pos_right Nat.lt_log2_self (by positivity)
      _ = 2 ^ 53 := by rw [← pow_add]; congr 1; omega
  exact ⟨j, hj, hmin, by omega, hmax, by omega, .inl hmin⟩

/-- Whether a value rounds to `m · 2 ^ e`: it is at most half a step away, or a quarter of a step
    where the steps below are half as wide, and from an odd mantissa it is less. -/
structure Near (m : ℕ) (e : ℤ) (v : ℚ) : Prop where
  low : ((m : ℚ) - 1 / 2) * 2 ^ e ≤ v
  high : v ≤ ((m : ℚ) + 1 / 2) * 2 ^ e
  quarter : m = 2 ^ 52 → -1074 < e → ((m : ℚ) - 1 / 4) * 2 ^ e ≤ v
  odd : m % 2 = 1 → ((m : ℚ) - 1 / 2) * 2 ^ e < v ∧ v < ((m : ℚ) + 1 / 2) * 2 ^ e

/-- A double rounds to itself. -/
theorem Near.self {m : ℕ} {e : ℤ} : Near m e (m * 2 ^ e) := by
  have hp : (0 : ℚ) < 2 ^ e := by positivity
  refine ⟨by nlinarith, by nlinarith, fun _ _ => by nlinarith, fun _ => ⟨by nlinarith, by nlinarith⟩⟩

theorem targetExponent_eq (n : ℕ) (k : ℤ) :
    Format.binary64.targetExponent (Float.Model.totalExponent n k) =
      max (n.log2 + 1 + k - 53) (-1074) := rfl

/-- Rounding is two shifts: the first cuts off bits, the second one gives back the carry. -/
theorem roundWithAccuracy_of_shifts {s : Sign} {n m : ℕ} {k t e : ℤ} {acc : Accuracy}
    {em final : ExtendedMantissa}
    (hfirst : UnpackedFloat.shiftToTargetExponent .binary64 n k acc = (em, t))
    (hsecond : UnpackedFloat.shiftToTargetExponent .binary64 em.roundedMantissa t .exact =
      (final, e)) (hfinal : final.mantissa = m) (hm : 0 < m) :
    roundWithAccuracy .binary64 s n k acc = .finite s m e hm := by
  subst hfinal
  unfold roundWithAccuracy
  simp only [hfirst, hsecond, hm.ne', dite_false]

/-- A shift to an exponent that is not lower divides the value. -/
theorem Marks.shiftToExponent {n : ℕ} {k t : ℤ} {acc : Accuracy} {v : ℚ}
    (h : Marks (.ofMantissaAndAccuracy n acc) (v / 2 ^ k)) (hkt : k ≤ t) :
    ∃ em, UnpackedFloat.shiftToExponent n k acc t = (em, t) ∧ Marks em (v / 2 ^ t) := by
  have hshift : k + ((t - k).toNat : ℤ) = t := by omega
  refine ⟨_, Prod.ext rfl hshift, ?_⟩
  have hmarks := h.shiftRight (t - k).toNat
  rwa [div_div, ← zpow_natCast, ← zpow_add₀ two_ne_zero, hshift] at hmarks

/-- The exponent that a value is rounded at leaves it 53 bits, all of them in use unless the
    exponent is the least one. -/
theorem targetExponent_bounds {n : ℕ} {k : ℤ} {acc : Accuracy} {v : ℚ}
    (hmarks : Marks (.ofMantissaAndAccuracy n acc) (v / 2 ^ k)) {t : ℤ}
    (ht : t = max (n.log2 + 1 + k - 53) (-1074)) (hkt : k ≤ t) :
    v < 2 ^ 53 * 2 ^ t ∧ (t = -1074 ∨ 2 ^ 52 * 2 ^ t ≤ v) := by
  have hmantissa : (ExtendedMantissa.ofMantissaAndAccuracy n acc).mantissa = n := by
    unfold ExtendedMantissa.ofMantissaAndAccuracy
    split <;> rfl
  have hle := hmarks.le
  have hlt := hmarks.lt
  rw [hmantissa] at hle hlt
  have hk : (0 : ℚ) < 2 ^ k := by positivity
  rw [le_div_iff₀ hk] at hle
  rw [div_lt_iff₀ hk] at hlt
  constructor
  · have hbits : (n : ℚ) + 1 ≤ 2 ^ (n.log2 + 1) := by exact_mod_cast Nat.lt_log2_self
    calc v < ((n : ℚ) + 1) * 2 ^ k := hlt
      _ ≤ 2 ^ (n.log2 + 1) * 2 ^ k := by gcongr
      _ = 2 ^ ((n.log2 : ℤ) + 1 + k) := by
          rw [zpow_add₀ two_ne_zero]; norm_cast
      _ ≤ 2 ^ (53 + t) := zpow_le_zpow_right₀ one_le_two (by omega)
      _ = 2 ^ 53 * 2 ^ t := by rw [zpow_add₀ two_ne_zero]; norm_cast
  · rcases eq_or_ne t (-1074) with h | h
    · exact .inl h
    · right
      have hlog : t = n.log2 + k - 52 := by omega
      have hn : n ≠ 0 := by rintro rfl; simp at hlog; omega
      calc (2 : ℚ) ^ 52 * 2 ^ t = 2 ^ (n.log2 : ℤ) * 2 ^ k := by
            rw [hlog, ← zpow_natCast, ← zpow_add₀ two_ne_zero, ← zpow_add₀ two_ne_zero]
            congr 1
            push_cast
            ring
        _ ≤ n * 2 ^ k := by
            gcongr
            exact_mod_cast Nat.log2_self_le hn
        _ ≤ v := hle

namespace Legal

variable {m : ℕ} {e : ℤ}

/-- A double needs no further shift. -/
theorem shiftToTargetExponent (h : Legal m e) :
    UnpackedFloat.shiftToTargetExponent .binary64 m e .exact = (⟨m, false, false⟩, e) := by
  have hlog : m.log2 < 53 := (Nat.log2_lt h.pos.ne').mpr h.lt
  have hshift : (max ((m.log2 : ℤ) + 1 + e - 53) (-1074) - e).toNat = 0 := by
    have := h.least
    omega
  unfold UnpackedFloat.shiftToTargetExponent UnpackedFloat.shiftToExponent
  simp only [targetExponent_eq, hshift, Nat.cast_zero, add_zero]
  rfl

/-- Above all mantissas the next step is twice as wide. -/
theorem shiftToTargetExponent_carry (h : -1074 ≤ e) :
    UnpackedFloat.shiftToTargetExponent .binary64 (2 ^ 53) e .exact =
      (⟨2 ^ 52, false, false⟩, e + 1) := by
  have hshift : (max (((2 ^ 53 : ℕ).log2 : ℤ) + 1 + e - 53) (-1074) - e).toNat = 1 := by
    rw [Nat.log2_two_pow]
    omega
  unfold UnpackedFloat.shiftToTargetExponent UnpackedFloat.shiftToExponent
  simp only [targetExponent_eq, hshift]
  rfl

/-- A value is rounded at the exponent of the double that it is near to, or one below that. -/
theorem exponent_of_near (h : Legal m e) {v : ℚ} (hv : Near m e v) {t : ℤ} (ht : -1074 ≤ t)
    (hlt : v < 2 ^ 53 * 2 ^ t) (hge : t = -1074 ∨ 2 ^ 52 * 2 ^ t ≤ v) :
    t = e ∨ t = e - 1 ∧ m = 2 ^ 52 ∧ -1074 < e := by
  have hm : (m : ℚ) + 1 ≤ 2 ^ 53 := by exact_mod_cast h.lt
  have hp : (0 : ℚ) < 2 ^ e := by positivity
  -- Further up, 53 bits would make the value larger than what is near to the double.
  have hle : t ≤ e := by
    by_contra hcon
    have hstep : (2 : ℚ) ^ (e + 1) ≤ 2 ^ t := zpow_le_zpow_right₀ one_le_two (by omega)
    rw [zpow_add_one₀ two_ne_zero] at hstep
    have hfull : 2 ^ 52 * 2 ^ t ≤ v := hge.resolve_left (by have := h.least; omega)
    have := hv.high
    nlinarith
  rcases hle.eq_or_lt with heq | hlower
  · exact .inl heq
  right
  have hnormal : -1074 < e := by omega
  have hmin : (2 : ℚ) ^ 52 ≤ m := by exact_mod_cast h.full.resolve_right (by omega)
  have hstep : (2 : ℚ) ^ t * 2 ≤ 2 ^ e := by
    rw [← zpow_add_one₀ two_ne_zero]
    exact zpow_le_zpow_right₀ one_le_two (by omega)
  -- Further down, the value has a bit too many, unless the double is a power of two.
  have hmeq : m = 2 ^ 52 := by
    by_contra hne
    have hnext : (2 : ℚ) ^ 52 + 1 ≤ m := by
      have : 2 ^ 52 + 1 ≤ m := by
        have : 2 ^ 52 ≤ m := by exact_mod_cast hmin
        omega
      exact_mod_cast this
    have := hv.low
    nlinarith
  refine ⟨?_, hmeq, hnormal⟩
  by_contra hne
  -- Two steps down even a quarter of a step below the power is too much.
  have hstep : (2 : ℚ) ^ t * 4 ≤ 2 ^ e := by
    have : (2 : ℚ) ^ t * 4 = 2 ^ (t + 2) := by rw [zpow_add₀ two_ne_zero]; norm_num
    rw [this]
    exact zpow_le_zpow_right₀ one_le_two (by omega)
  have := hv.quarter hmeq hnormal
  nlinarith

end Legal

/-- A value that is near to a double is rounded to it. -/
theorem roundWithAccuracy_of_near {m : ℕ} {e : ℤ} (h : Legal m e) {s : Sign} {n : ℕ} {k : ℤ}
    {acc : Accuracy} {v : ℚ} (hmarks : Marks (.ofMantissaAndAccuracy n acc) (v / 2 ^ k))
    (hk : k ≤ Format.binary64.targetExponent (Float.Model.totalExponent n k)) (hv : Near m e v) :
    roundWithAccuracy .binary64 s n k acc = .finite s m e h.pos := by
  have ht := targetExponent_eq n k
  obtain ⟨em, hfirst, hmarks'⟩ := hmarks.shiftToExponent hk
  generalize Format.binary64.targetExponent (Float.Model.totalExponent n k) = t at *
  obtain ⟨hlt, hge⟩ := targetExponent_bounds hmarks ht hk
  have hfirst' : UnpackedFloat.shiftToTargetExponent .binary64 n k acc = (em, t) := by
    rw [← hfirst, ht]
    rfl
  have hmin : -1074 ≤ t := by omega
  have hp : (0 : ℚ) < 2 ^ t := by positivity
  rcases h.exponent_of_near hv hmin hlt hge with rfl | ⟨rfl, rfl, hnormal⟩
  · have hrounded : em.roundedMantissa = m := by
      refine hmarks'.rounded_eq ((le_div_iff₀ hp).mpr hv.low) ((div_le_iff₀ hp).mpr hv.high) ?_
      exact fun hm => ⟨(lt_div_iff₀ hp).mpr (hv.odd hm).1, (div_lt_iff₀ hp).mpr (hv.odd hm).2⟩
    rw [← hrounded] at h
    exact roundWithAccuracy_of_shifts hfirst' h.shiftToTargetExponent hrounded _
  · -- Just below a power of two the value is rounded up to it, which takes a bit too many.
    have hrounded : em.roundedMantissa = 2 ^ 53 := by
      have hlow := hv.quarter rfl hnormal
      have hdouble : (2 : ℚ) ^ e = 2 ^ (e - 1) * 2 := by
        rw [← zpow_add_one₀ two_ne_zero, sub_add_cancel]
      rw [hdouble] at hlow
      refine hmarks'.rounded_eq ((le_div_iff₀ hp).mpr ?_) ((div_le_iff₀ hp).mpr ?_) ?_
      · push_cast at hlow ⊢
        linarith
      · push_cast
        linarith
      · intro hodd
        exact absurd hodd (by decide)
    have hsecond := Legal.shiftToTargetExponent_carry hmin
    rw [← hrounded, sub_add_cancel] at hsecond
    exact roundWithAccuracy_of_shifts hfirst' hsecond rfl _

/-! ## Products and quotients -/

section

variable {m m₁ m₂ : ℕ} {e e₁ e₂ : ℤ} {h₁ : 0 < m₁} {h₂ : 0 < m₂} {s₁ s₂ : Sign}

theorem mul_of_near (h : Legal m e) (hlarge : 2 ^ 53 ≤ m₁ * m₂)
    (hv : Near m e (m₁ * 2 ^ e₁ * (m₂ * 2 ^ e₂))) :
    UnpackedFloat.mul .binary64 (.finite s₁ m₁ e₁ h₁) (.finite s₂ m₂ e₂ h₂) =
      .finite (s₁ * s₂) m e h.pos := by
  refine roundWithAccuracy_of_near h (v := m₁ * 2 ^ e₁ * (m₂ * 2 ^ e₂)) ?_ ?_ hv
  · have hvalue : (m₁ * 2 ^ e₁ * (m₂ * 2 ^ e₂) : ℚ) / 2 ^ (e₁ + e₂) = (m₁ * m₂ : ℕ) := by
      rw [zpow_add₀ two_ne_zero]
      field_simp
      push_cast
      ring
    rw [hvalue]
    exact Marks.exact _
  · have hlog : 53 ≤ (m₁ * m₂).log2 := (Nat.le_log2 (by positivity)).mpr hlarge
    rw [targetExponent_eq]
    omega

theorem marks_of_fraction (a : ℕ) {b : ℕ} (hb : 0 < b) :
    Marks (.ofMantissaAndAccuracy (a / b) (accuracyOfFraction (a % b) b)) (a / b : ℚ) := by
  have hb' : (0 : ℚ) < b := by exact_mod_cast hb
  have hsplit : (a : ℚ) = b * (a / b : ℕ) + (a % b : ℕ) := by exact_mod_cast (Nat.div_add_mod a b).symm
  have hrest : ((a % b : ℕ) : ℚ) < b := by exact_mod_cast Nat.mod_lt a hb
  unfold accuracyOfFraction
  generalize a / b = q at *
  generalize a % b = r at *
  have hvalue : (a / b : ℚ) = q + r / b := by rw [hsplit]; field_simp
  rw [hvalue]
  split
  · rename_i hr
    simp [Marks, ExtendedMantissa.ofMantissaAndAccuracy, hr]
  · rename_i hr
    have hr' : (0 : ℚ) < r / b := by
      have : (0 : ℚ) < r := by exact_mod_cast Nat.pos_of_ne_zero hr
      positivity
    -- The first mark says whether the rest reaches half of the divisor, the second one whether
    -- it is anything else.
    rcases hc : compare (2 * r) b with _ | _ | _
    · have : (2 * r : ℚ) < b := by exact_mod_cast Nat.compare_eq_lt.mp hc
      have : (r / b : ℚ) < 1 / 2 := by rw [div_lt_iff₀ hb']; linarith
      show (q : ℚ) < q + r / b ∧ q + r / b < (q : ℚ) + 1 / 2
      exact ⟨by linarith, by linarith⟩
    · have : (2 * r : ℚ) = b := by exact_mod_cast Nat.compare_eq_eq.mp hc
      have : (r / b : ℚ) = 1 / 2 := by rw [div_eq_iff hb'.ne']; linarith
      show (q + r / b : ℚ) = q + 1 / 2
      rw [this]
    · have : (b : ℚ) < 2 * r := by exact_mod_cast Nat.compare_eq_gt.mp hc
      have : (1 / 2 : ℚ) < r / b := by rw [lt_div_iff₀ hb']; linarith
      have : (r / b : ℚ) < 1 := by rw [div_lt_one hb']; exact hrest
      show (q : ℚ) + 1 / 2 < q + r / b ∧ q + r / b < (q : ℚ) + 1
      exact ⟨by linarith, by linarith⟩

theorem div_of_near (h : Legal m e) (hv : Near m e (m₁ * 2 ^ e₁ / (m₂ * 2 ^ e₂))) :
    UnpackedFloat.div .binary64 (.finite s₁ m₁ e₁ h₁) (.finite s₂ m₂ e₂ h₂) =
      .finite (s₁ / s₂) m e h.pos := by
  have htarget : Format.binary64.targetExponent
      (Float.Model.totalExponent m₁ e₁ - Float.Model.totalExponent m₂ e₂) =
        max ((m₁.log2 : ℤ) + e₁ - m₂.log2 - e₂ - 53) (-1074) := by
    unfold Format.targetExponent Float.Model.totalExponent
    congr 1
    rw [show Format.binary64.mantissaBits = 53 from rfl]
    push_cast
    ring
  obtain ⟨t, ht⟩ : ∃ t, min (e₁ - e₂) (Format.binary64.targetExponent
      (Float.Model.totalExponent m₁ e₁ - Float.Model.totalExponent m₂ e₂)) = t := ⟨_, rfl⟩
  have hcore : divCore .binary64 m₁ e₁ m₂ e₂ =
      ((m₁ <<< (e₁ - e₂ - t).toNat) / m₂, t,
        accuracyOfFraction ((m₁ <<< (e₁ - e₂ - t).toNat) % m₂) m₂) := by
    unfold divCore
    rw [ht]
  rw [htarget] at ht
  obtain ⟨a, ha⟩ : ∃ a, m₁ <<< (e₁ - e₂ - t).toNat = a := ⟨_, rfl⟩
  rw [ha] at hcore
  -- The shifted dividend is exact, so the quotient of the mantissas is the value at exponent `t`.
  have hm₂ : (0 : ℚ) < m₂ := by exact_mod_cast h₂
  have hshift : (a : ℚ) = m₁ * 2 ^ (e₁ - e₂ - t) := by
    have hnat : e₁ - e₂ - t = ((e₁ - e₂ - t).toNat : ℤ) := by omega
    rw [← ha, Nat.shiftLeft_eq]
    conv_rhs => rw [hnat]
    push_cast
    rw [zpow_natCast]
  have hvalue : (m₁ * 2 ^ e₁ / (m₂ * 2 ^ e₂) : ℚ) / 2 ^ t = a / m₂ := by
    rw [hshift, zpow_sub₀ two_ne_zero, zpow_sub₀ two_ne_zero]
    field_simp
  show roundWithAccuracy .binary64 (s₁ / s₂) (divCore .binary64 m₁ e₁ m₂ e₂).1
    (divCore .binary64 m₁ e₁ m₂ e₂).2.1 (divCore .binary64 m₁ e₁ m₂ e₂).2.2 = _
  rw [hcore]
  refine roundWithAccuracy_of_near h ?_ ?_ hv
  · rw [hvalue]
    exact marks_of_fraction a h₂
  · rw [targetExponent_eq]
    show t ≤ max (((a / m₂).log2 : ℤ) + 1 + t - 53) (-1074)
    -- Either the least exponent was reached, or the quotient has 53 bits.
    rcases le_or_gt t (-1074) with hleast | hnormal
    · exact hleast.trans (le_max_right _ _)
    · have hbits : t ≤ (m₁.log2 : ℤ) + e₁ - m₂.log2 - e₂ - 53 := by omega
      have hquotient : 2 ^ 52 ≤ a / m₂ := by
        rw [Nat.le_div_iff_mul_le h₂]
        have hlow : (2 : ℚ) ^ (m₁.log2 : ℤ) ≤ m₁ := by exact_mod_cast Nat.log2_self_le h₁.ne'
        have hup : (m₂ : ℚ) ≤ 2 ^ ((m₂.log2 : ℤ) + 1) := by exact_mod_cast (Nat.lt_log2_self).le
        have : (2 : ℚ) ^ (52 : ℤ) * m₂ ≤ a := by
          calc (2 : ℚ) ^ (52 : ℤ) * m₂ ≤ 2 ^ (52 : ℤ) * 2 ^ ((m₂.log2 : ℤ) + 1) := by gcongr
            _ = 2 ^ (52 + ((m₂.log2 : ℤ) + 1)) := (zpow_add₀ two_ne_zero 52 _).symm
            _ ≤ 2 ^ ((m₁.log2 : ℤ) + (e₁ - e₂ - t)) :=
                zpow_le_zpow_right₀ one_le_two (by omega)
            _ = 2 ^ (m₁.log2 : ℤ) * 2 ^ (e₁ - e₂ - t) := zpow_add₀ two_ne_zero _ _
            _ ≤ m₁ * 2 ^ (e₁ - e₂ - t) := by gcongr
            _ = a := hshift.symm
        exact_mod_cast this
      have hlog : 52 ≤ (a / m₂).log2 :=
        (Nat.le_log2 (by intro hzero; rw [hzero] at hquotient; omega)).mpr hquotient
      omega

end

end Retouch.Number
