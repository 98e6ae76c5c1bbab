/-
  The shortest decimal of a double is near to it.

  The search for the shortest decimal compares exact quotients.  `Ratio.toRat` is the number that a
  quotient stands for, the interval of the search is `Near` (`holds_iff_near`), and so is all that
  the search finds.  It finds something at the latest on the grid of seventeen digits
  (`onGrid?_seventeen`), because a step of that grid is narrower than the interval.
-/
import Mathlib.Data.Nat.Cast.Order.Field
import Retouch.Number.Shortest
import Retouch.Proofs.Number.Rounding

namespace Retouch.Number

/-! ## Quotients -/

namespace Ratio

/-- The number that a quotient stands for. -/
def toRat (a : Ratio) : ℚ := a.num / a.den

theorem den_ofBinary_pos (m : ℕ) (e : ℤ) : 0 < (ofBinary m e).den := by
  unfold ofBinary
  split
  · exact Nat.one_pos
  · exact twoTo_pos _

theorem den_ofDecimal_pos (d : ℕ) (k : ℤ) : 0 < (ofDecimal d k).den := by
  unfold ofDecimal
  split
  · exact Nat.one_pos
  · exact Nat.pow_pos (by decide)

theorem toRat_ofBinary (m : ℕ) (e : ℤ) : (ofBinary m e).toRat = m * 2 ^ e := by
  unfold ofBinary toRat
  split
  · rename_i he
    obtain ⟨k, rfl⟩ := Int.eq_ofNat_of_zero_le he
    simp [twoTo]
  · obtain ⟨k, hk⟩ : ∃ k : ℕ, e = -k := ⟨(-e).toNat, by omega⟩
    subst hk
    simp [twoTo, div_eq_mul_inv]

theorem toRat_ofDecimal (d : ℕ) (k : ℤ) : (ofDecimal d k).toRat = d * 10 ^ k := by
  unfold ofDecimal toRat
  split
  · rename_i hk
    obtain ⟨j, rfl⟩ := Int.eq_ofNat_of_zero_le hk
    simp [tenTo]
  · obtain ⟨j, hj⟩ : ∃ j : ℕ, k = -j := ⟨(-k).toNat, by omega⟩
    subst hj
    simp [tenTo, div_eq_mul_inv]

variable {a b : Ratio}

theorem le_iff (ha : 0 < a.den) (hb : 0 < b.den) : a.le b = true ↔ a.toRat ≤ b.toRat := by
  have ha' : (0 : ℚ) < a.den := by exact_mod_cast ha
  have hb' : (0 : ℚ) < b.den := by exact_mod_cast hb
  unfold le toRat
  rw [decide_eq_true_iff, div_le_div_iff₀ ha' hb']
  norm_cast

theorem lt_iff (ha : 0 < a.den) (hb : 0 < b.den) : a.lt b = true ↔ a.toRat < b.toRat := by
  have ha' : (0 : ℚ) < a.den := by exact_mod_cast ha
  have hb' : (0 : ℚ) < b.den := by exact_mod_cast hb
  unfold lt toRat
  rw [decide_eq_true_iff, div_lt_div_iff₀ ha' hb']
  norm_cast

/-- Going into a quotient by powers of ten leaves less than one power. -/
theorem divPow10_bounds (ha : 0 < a.den) (k : ℤ) :
    (a.divPow10 k : ℚ) * 10 ^ k ≤ a.toRat ∧ a.toRat < (a.divPow10 k + 1 : ℚ) * 10 ^ k := by
  have hfloor : ∀ {n d : ℕ}, 0 < d → ((n / d : ℕ) : ℚ) * d ≤ n ∧ (n : ℚ) < ((n / d : ℕ) + 1) * d := by
    intro n d hd
    have h₁ := Nat.div_mul_le_self n d
    have h₂ := Nat.lt_div_mul_add (a := n) hd
    constructor
    · exact_mod_cast h₁
    · have : n < (n / d + 1) * d := by rw [Nat.add_mul, Nat.one_mul]; exact h₂
      exact_mod_cast this
  have ha' : (0 : ℚ) < a.den := by exact_mod_cast ha
  unfold divPow10 toRat
  split
  · rename_i hk
    obtain ⟨j, rfl⟩ := Int.eq_ofNat_of_zero_le hk
    obtain ⟨hlow, hhigh⟩ := hfloor (n := a.num) (d := a.den * tenTo j)
      (Nat.mul_pos ha (Nat.pow_pos (by decide)))
    simp only [Int.toNat_natCast, zpow_natCast, tenTo, Nat.pow_eq] at hlow hhigh ⊢
    push_cast at hlow hhigh
    rw [le_div_iff₀ ha', div_lt_iff₀ ha']
    constructor <;> linarith
  · obtain ⟨j, hj⟩ : ∃ j : ℕ, k = -j := ⟨(-k).toNat, by omega⟩
    subst hj
    obtain ⟨hlow, hhigh⟩ := hfloor (n := a.num * tenTo j) ha
    have hp : (0 : ℚ) < 10 ^ j := by positivity
    simp only [neg_neg, Int.toNat_natCast, zpow_neg, zpow_natCast, tenTo, Nat.pow_eq] at hlow hhigh ⊢
    push_cast at hlow hhigh
    rw [le_div_iff₀ ha', div_lt_iff₀ ha', ← div_eq_mul_inv, ← div_eq_mul_inv, div_mul_eq_mul_div,
      div_mul_eq_mul_div, div_le_iff₀ hp, lt_div_iff₀ hp]
    exact ⟨hlow, hhigh⟩

end Ratio

/-! ## The interval -/

/-- The interval of the search holds the values that are near. -/
theorem holds_iff_near {m : ℕ} (hm : 0 < m) {e : ℤ} {a : Ratio} (ha : 0 < a.den) :
    (Rounding.ofBinary m e).holds a = true ↔ Near m e a.toRat := by
  have hm' : (1 : ℚ) ≤ m := by exact_mod_cast hm
  have hp : (0 : ℚ) < 2 ^ e := by positivity
  have hhigh : (Rounding.ofBinary m e).high.toRat = ((m : ℚ) + 1 / 2) * 2 ^ e := by
    show (Ratio.ofBinary (2 * m + 1) (e - 1)).toRat = _
    rw [Ratio.toRat_ofBinary, zpow_sub_one₀ two_ne_zero]
    push_cast
    ring
  have hlow : (Rounding.ofBinary m e).low.toRat =
      if m = 2 ^ 52 ∧ -1074 < e then ((m : ℚ) - 1 / 4) * 2 ^ e else ((m : ℚ) - 1 / 2) * 2 ^ e := by
    by_cases hnarrow : m = 2 ^ 52 ∧ -1074 < e
    · have hlow : (Rounding.ofBinary m e).low = .ofBinary (4 * m - 1) (e - 2) := if_pos hnarrow
      rw [if_pos hnarrow, hlow, Ratio.toRat_ofBinary, zpow_sub₀ two_ne_zero,
        Nat.cast_sub (by omega)]
      push_cast
      ring
    · have hlow : (Rounding.ofBinary m e).low = .ofBinary (2 * m - 1) (e - 1) := if_neg hnarrow
      rw [if_neg hnarrow, hlow, Ratio.toRat_ofBinary, zpow_sub_one₀ two_ne_zero,
        Nat.cast_sub (by omega)]
      push_cast
      ring
  have hdenHigh : 0 < (Rounding.ofBinary m e).high.den := Ratio.den_ofBinary_pos _ _
  have hdenLow : 0 < (Rounding.ofBinary m e).low.den := by
    unfold Rounding.ofBinary
    dsimp only
    split <;> exact Ratio.den_ofBinary_pos _ _
  have hclosed : (Rounding.ofBinary m e).closed = (m % 2 == 0) := rfl
  unfold Rounding.holds
  rw [hclosed]
  rcases Nat.mod_two_eq_zero_or_one m with hparity | hparity <;> rw [hparity]
  · -- From an even mantissa the ends of the interval belong to it.
    simp only [beq_self_eq_true, if_true, Bool.and_eq_true]
    rw [Ratio.le_iff hdenLow ha, Ratio.le_iff ha hdenHigh, hlow, hhigh]
    constructor
    · rintro ⟨hge, hle⟩
      split at hge
      · exact ⟨by nlinarith, hle, fun _ _ => hge, fun h => by omega⟩
      · rename_i hwide
        exact ⟨hge, hle, fun h he => absurd ⟨h, he⟩ hwide, fun h => by omega⟩
    · intro h
      refine ⟨?_, h.high⟩
      split
      · rename_i hnarrow
        exact h.quarter hnarrow.1 hnarrow.2
      · exact h.low
  · have hwide : ¬ (m = 2 ^ 52 ∧ -1074 < e) := by
      rintro ⟨rfl, -⟩
      exact absurd hparity (by decide)
    have hopen : ((1 : ℕ) == 0) = false := rfl
    rw [if_neg hwide] at hlow
    simp only [hopen, Bool.false_eq_true, if_false, Bool.and_eq_true]
    rw [Ratio.lt_iff hdenLow ha, Ratio.lt_iff ha hdenHigh, hlow, hhigh]
    constructor
    · rintro ⟨hlt, hgt⟩
      exact ⟨hlt.le, hgt.le, fun h he => absurd ⟨h, he⟩ hwide, fun _ => ⟨hlt, hgt⟩⟩
    · intro h
      exact h.odd hparity

/-- The number that a decimal stands for. -/
def Decimal.value (d : Decimal) : ℚ := d.digits * 10 ^ d.scale

theorem holds_decimal_iff {m : ℕ} (hm : 0 < m) {e : ℤ} {d : Decimal} :
    (Rounding.ofBinary m e).holds (.ofDecimal d.digits d.scale) = true ↔ Near m e d.value := by
  rw [holds_iff_near hm (Ratio.den_ofDecimal_pos _ _), Ratio.toRat_ofDecimal]
  rfl

/-! ## The search -/

section

variable {m : ℕ} {e : ℤ}

/-- What is found on a grid lies in the interval. -/
theorem holds_of_onGrid? {value : Ratio} {interval : Rounding} {power : ℤ} {count : ℕ} {d : Decimal}
    (h : onGrid? value interval power count = some d) :
    interval.holds (.ofDecimal d.digits d.scale) = true := by
  unfold onGrid? at h
  extract_lets scale below low high down up at h
  cases hlow : interval.holds low <;> cases hhigh : interval.holds high <;>
    simp only [hlow, hhigh] at h
  · cases h
  · cases h
    exact hhigh
  · cases h
    exact hlow
  · split at h <;> cases h
    · exact hlow
    · exact hhigh

/-- Where nothing is found on a grid, neither neighbour lies in the interval. -/
theorem not_holds_of_onGrid?_none {value : Ratio} {interval : Rounding} {power : ℤ} {count : ℕ}
    (h : onGrid? value interval power count = none) {scale : ℤ} (hscale : power - count + 1 = scale) :
    interval.holds (.ofDecimal (value.divPow10 scale) scale) = false ∧
      interval.holds (.ofDecimal (value.divPow10 scale + 1) scale) = false := by
  subst hscale
  unfold onGrid? at h
  extract_lets scale below low high down up at h
  cases hlow : interval.holds low <;> cases hhigh : interval.holds high <;>
    simp only [hlow, hhigh] at h
  · exact ⟨rfl, rfl⟩
  · cases h
  · cases h
  · split at h <;> cases h

/-- A value closer to a double than half the step below it is near. -/
theorem near_of_close {v : ℚ} (hlow : ((m : ℚ) - 1 / 2) * 2 ^ e < v)
    (hquarter : m = 2 ^ 52 → ((m : ℚ) - 1 / 4) * 2 ^ e ≤ v)
    (hhigh : v < ((m : ℚ) + 1 / 2) * 2 ^ e) : Near m e v :=
  ⟨hlow.le, hhigh.le, fun h _ => hquarter h, fun _ => ⟨hlow, hhigh⟩⟩

/-- On the grid of seventeen digits one of the neighbours of a double is near to it. -/
theorem onGrid?_seventeen (h : Legal m e) {power : ℤ}
    (hpower : (10 : ℚ) ^ power ≤ m * 2 ^ e) :
    onGrid? (.ofBinary m e) (.ofBinary m e) power 17 ≠ none := by
  intro hnone
  have hscale : power - (17 : ℕ) + 1 = power - 16 := by push_cast; ring
  obtain ⟨hbelow, habove⟩ := not_holds_of_onGrid?_none hnone hscale
  obtain ⟨hle, hlt⟩ := Ratio.divPow10_bounds (Ratio.den_ofBinary_pos m e) (power - 16)
  rw [Ratio.toRat_ofBinary] at hle hlt
  generalize (Ratio.ofBinary m e).divPow10 (power - 16) = below at *
  rw [← Bool.not_eq_true, holds_iff_near h.pos (Ratio.den_ofDecimal_pos _ _),
    Ratio.toRat_ofDecimal] at hbelow habove
  -- A step of the grid is less than twice the narrower half of the interval.
  have hp : (0 : ℚ) < 2 ^ e := by positivity
  have hstep : (10 : ℚ) ^ (power - 16) * 10 ^ 16 ≤ m * 2 ^ e := by
    have hsixteen : (10 : ℚ) ^ (power - 16) * 10 ^ 16 = 10 ^ power := by
      rw [← zpow_natCast, ← zpow_add₀ (by norm_num : (10 : ℚ) ≠ 0)]
      congr 1
      push_cast
      ring
    rw [hsixteen]
    exact hpower
  have hgrid : (0 : ℚ) < 10 ^ (power - 16) := by positivity
  have hmax : (m : ℚ) ≤ 2 ^ 53 - 1 := by
    have : m ≤ 2 ^ 53 - 1 := by have := h.lt; omega
    have : (m : ℚ) ≤ (2 ^ 53 - 1 : ℕ) := by exact_mod_cast this
    norm_num at this ⊢
    exact this
  generalize (10 : ℚ) ^ (power - 16) = g at *
  have hwide : g < 2 ^ e := by nlinarith
  have hnarrow : m = 2 ^ 52 → g < 2 ^ e / 2 := by
    rintro rfl
    push_cast at hstep
    nlinarith
  -- So the neighbour that is not further than half a step of the grid lies in the interval.
  rcases le_total (m * 2 ^ e - below * g) (g / 2) with hclose | hclose
  · refine hbelow (near_of_close ?_ ?_ ?_)
    · nlinarith
    · intro hm
      nlinarith [hnarrow hm]
    · nlinarith
  · refine habove (near_of_close ?_ ?_ ?_)
    · push_cast
      nlinarith
    · intro hm
      push_cast
      nlinarith
    · push_cast
      nlinarith

/-- The digits of a positive number do not exceed it. -/
theorem pow_digitCount_le {n : ℕ} (hn : 0 < n) : 10 ^ (digitCount n - 1) ≤ n := by
  rcases Nat.eq_zero_or_pos (digitCount n - 1) with hzero | hpos
  · rw [hzero]
    exact hn
  · by_contra hcon
    have hshort := (Nat.length_toDigits_le_iff (b := 10) (by decide) hpos).mpr (not_le.mp hcon)
    have hlen : 0 < digitCount n := Nat.length_toDigits_pos
    unfold digitCount at *
    omega

/-- The power of the leading digit does not exceed a quotient that is not below `10 ^ -400`. -/
theorem leadingPower_le {a : Ratio} (ha : 0 < a.den) (hmin : (10 : ℚ) ^ (-400 : ℤ) ≤ a.toRat) :
    (10 : ℚ) ^ leadingPower a ≤ a.toRat := by
  have ha' : (0 : ℚ) < a.den := by exact_mod_cast ha
  have hscaled : ∀ k : ℕ, a.den ≤ a.num * tenTo k ↔ (10 : ℚ) ^ (-k : ℤ) ≤ a.toRat := by
    intro k
    have hp : (0 : ℚ) < 10 ^ k := by positivity
    unfold Ratio.toRat tenTo
    rw [zpow_neg, zpow_natCast, le_div_iff₀ ha', inv_mul_le_iff₀ hp, Nat.pow_eq, mul_comm]
    norm_cast
  unfold leadingPower
  split
  · rename_i hwhole
    have hpos : 0 < a.num / a.den := Nat.div_pos hwhole ha
    have hdigits := pow_digitCount_le hpos
    have hcount : 0 < digitCount (a.num / a.den) := Nat.length_toDigits_pos
    have hpower : (digitCount (a.num / a.den) : ℤ) - 1 = (digitCount (a.num / a.den) - 1 : ℕ) := by
      omega
    rw [hpower, zpow_natCast]
    calc (10 : ℚ) ^ (digitCount (a.num / a.den) - 1) ≤ (a.num / a.den : ℕ) := by
          exact_mod_cast hdigits
      _ ≤ a.num / a.den := Nat.cast_div_le
  · split
    · rename_i k hfind
      have hk : a.den ≤ a.num * tenTo (k + 1) := by simpa using List.find?_some hfind
      have := (hscaled (k + 1)).mp hk
      push_cast at this
      exact this
    · rename_i hnone
      have hlast := List.find?_eq_none.mp hnone 399 (by decide)
      have hreach : a.den ≤ a.num * tenTo 400 := (hscaled 400).mpr (by exact_mod_cast hmin)
      exact absurd (decide_eq_true hreach) hlast

theorem Decimal.value_dropZeros (fuel : ℕ) (d : Decimal) : (d.dropZeros fuel).value = d.value := by
  induction fuel generalizing d with
  | zero => rfl
  | succ fuel ih =>
      unfold dropZeros
      split
      · rename_i hzero
        rw [ih]
        have hten : (d.digits : ℚ) = 10 * (d.digits / 10 : ℕ) := by
          exact_mod_cast (Nat.mul_div_cancel' (Nat.dvd_of_mod_eq_zero hzero.2)).symm
        unfold value
        rw [hten, zpow_add_one₀ (by norm_num : (10 : ℚ) ≠ 0)]
        ring
      · rfl

/-- The shortest decimal of a double is near to it. -/
theorem near_shortest (h : Legal m e) : Near m e (shortest m e).value := by
  have hpower : (10 : ℚ) ^ leadingPower (.ofBinary m e) ≤ m * 2 ^ e := by
    rw [← Ratio.toRat_ofBinary]
    refine leadingPower_le (Ratio.den_ofBinary_pos m e) ?_
    rw [Ratio.toRat_ofBinary]
    have hm : (1 : ℚ) ≤ m := by exact_mod_cast h.pos
    calc (10 : ℚ) ^ (-400 : ℤ) ≤ 2 ^ (-1074 : ℤ) := by
          rw [zpow_neg, zpow_neg, inv_le_inv₀ (by positivity) (by positivity)]
          exact_mod_cast (by decide +kernel : 2 ^ 1074 ≤ 10 ^ 400)
      _ ≤ 2 ^ e := zpow_le_zpow_right₀ one_le_two h.least
      _ ≤ m * 2 ^ e := le_mul_of_one_le_left (by positivity) hm
  unfold shortest
  rw [Decimal.value_dropZeros]
  cases hfound : (List.range 17).findSome? fun i =>
      onGrid? (.ofBinary m e) (.ofBinary m e) (leadingPower (.ofBinary m e)) (i + 1) with
  | none =>
      have hlast := List.findSome?_eq_none_iff.mp hfound 16 (by decide)
      exact absurd hlast (onGrid?_seventeen h hpower)
  | some d =>
      obtain ⟨i, -, hgrid⟩ := List.exists_of_findSome?_eq_some hfound
      exact (holds_decimal_iff h.pos).mp (holds_of_onGrid? hgrid)

end

end Retouch.Number
