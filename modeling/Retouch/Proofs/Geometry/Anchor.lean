/-
  Where a scaled layer stands.

  The sign of a coordinate says which edge it counts from.  A coordinate is scaled by its magnitude
  and gets its sign back, so that mirrored coordinates round alike.  But zero has no sign: a
  coordinate of less than half a scaled pixel before the far edge becomes zero, which counts from
  the near edge (`Position.LosesEdge`).  Every other coordinate keeps its edge, and the layer stands
  at the scaled place, up to half a pixel and what the scaled sizes are off.  Main result:
  `Position.scaled_keeps`.
-/
import Retouch.Geometry.Rect
import Retouch.Proofs.Path.Shrink
import Retouch.Proofs.Position

namespace Retouch.Position

variable {px : Int} {s : Rat}

/-! ## Scaled coordinates -/

/-- Whether a coordinate that counts from the far edge is rounded to zero at a scale. -/
def LosesEdge (px : Int) (s : Rat) : Prop := px < 0 ∧ s * -px < 1 / 2

/-- A coordinate is scaled to within half a pixel, and counts from the same edge unless it becomes
    zero. -/
theorem exists_scaled (px : Int) (hs : 0 < s) (hs' : s ≤ 1) :
    ∃ k : Int, (absolute (.int px)).scaled s = .ok (absolute (.int k)) ∧ IsScaled s (1 / 2) px k ∧
      (k < 0 ↔ px < 0 ∧ ¬ LosesEdge px s) ∧ (LosesEdge px s → k = 0) := by
  by_cases hone : (s == 1) = true
  · -- At full scale a coordinate is kept, and a pixel is no half of one.
    obtain rfl : s = 1 := eq_of_beq hone
    have hkept : ¬ LosesEdge px 1 := by
      rintro ⟨hneg, hsmall⟩
      have hneg' : (px : Rat) ≤ -1 := by exact_mod_cast (by omega : px ≤ -1)
      linarith
    have hscaled : (absolute (.int px)).scaled (1 : Rat) = .ok (absolute (.int px)) := by
      rw [scaled, if_pos hone]
    refine ⟨px, hscaled, .refl (by norm_num) px, ?_, fun h => absurd h hkept⟩
    exact ⟨fun h => ⟨h, hkept⟩, And.left⟩
  · rcases le_or_gt 0 px with hpx | hpx
    · have hpx' : (0 : Rat) ≤ px := by exact_mod_cast hpx
      have hscaled : (absolute (.int px)).scaled s =
          .ok (absolute (.int ⌊(px : Rat) * s + 1 / 2⌋)) := by
        simp only [scaled, hone]
        show (if (0 : Rat) ≤ px then _ else _) = _
        rw [if_pos hpx']
        rfl
      have hnonneg := round_nonneg (mul_nonneg hpx' hs.le)
      refine ⟨_, hscaled, ?_, ?_, fun h => absurd h.1 (not_lt.mpr hpx)⟩
      · rw [IsScaled, mul_comm s]
        exact round_near _
      · exact ⟨fun h => absurd h (not_lt.mpr hnonneg), fun h => absurd h.1 (not_lt.mpr hpx)⟩
    · have hpx' : (px : Rat) < 0 := by exact_mod_cast hpx
      have hscaled : (absolute (.int px)).scaled s =
          .ok (absolute (.int (-⌊-(px : Rat) * s + 1 / 2⌋))) := by
        simp only [scaled, hone]
        show (if (0 : Rat) ≤ px then _ else _) = _
        rw [if_neg (not_le.mpr hpx')]
        rfl
      have hpos : 0 < -(px : Rat) * s := mul_pos (neg_pos.mpr hpx') hs
      have hnonneg := round_nonneg hpos.le
      have hloses : LosesEdge px s ↔ ¬ 0 < ⌊-(px : Rat) * s + 1 / 2⌋ := by
        rw [LosesEdge, round_pos_iff, not_le, mul_comm s]
        exact and_iff_right hpx
      refine ⟨_, hscaled, ?_, ?_, fun h => ?_⟩
      · have hnear := round_near (-(px : Rat) * s)
        rw [← abs_neg] at hnear
        rw [IsScaled]
        convert hnear using 2
        push_cast
        ring
      · rw [hloses]
        omega
      · rw [hloses] at h
        omega

/-! ## Places on a canvas -/

section

variable (extent canvas : Rat) (near far : Side) (fallback : Rat)

/-- A negative coordinate counts from the far edge, where the layer ends. -/
theorem resolve_int (n : Int) :
    resolve (some (absolute (.int n))) extent canvas near far fallback =
      .ok (if n < 0 then canvas + n - extent else (n : Rat)) := by
  by_cases hn : n < 0
  · rw [if_pos hn]
    show Except.ok (if decide (n < 0) = true then canvas + (n : Rat) - extent else (n : Rat)) = _
    rw [if_pos (decide_eq_true hn)]
  · rw [if_neg hn]
    show Except.ok (if decide (n < 0) = true then canvas + (n : Rat) - extent else (n : Rat)) = _
    rw [if_neg (by simpa using hn)]

/-- A layer whose coordinate keeps its edge stands at the scaled place, up to what the coordinate
    and the sizes are off. -/
theorem resolve_near {n m : Int} {t : Rat} (hnear : IsScaled s t n m) (hedge : m < 0 ↔ n < 0)
    (extent' canvas' : Rat) {x x' : Rat}
    (hx : resolve (some (absolute (.int n))) extent canvas near far fallback = .ok x)
    (hx' : resolve (some (absolute (.int m))) extent' canvas' near far fallback = .ok x') :
    |x' - s * x| ≤ t + |canvas' - s * canvas| + |extent' - s * extent| := by
  rw [resolve_int] at hx hx'
  obtain rfl := Except.ok.inj hx
  obtain rfl := Except.ok.inj hx'
  by_cases hn : n < 0
  · rw [if_pos hn, if_pos (hedge.mpr hn)]
    have hsplit : canvas' + m - extent' - s * (canvas + n - extent) =
        (m - s * n) + (canvas' - s * canvas) - (extent' - s * extent) := by ring
    rw [hsplit]
    calc |((m : Rat) - s * n) + (canvas' - s * canvas) - (extent' - s * extent)|
        ≤ |((m : Rat) - s * n) + (canvas' - s * canvas)| + |extent' - s * extent| := abs_sub _ _
      _ ≤ |(m : Rat) - s * n| + |canvas' - s * canvas| + |extent' - s * extent| :=
          add_le_add_left (abs_add_le _ _) _
      _ ≤ t + |canvas' - s * canvas| + |extent' - s * extent| :=
          add_le_add_left (add_le_add_left hnear _) _
  · rw [if_neg hn, if_neg (mt hedge.mp hn)]
    have hcanvas := abs_nonneg (canvas' - s * canvas)
    have hextent := abs_nonneg (extent' - s * extent)
    have hnear' : |(m : Rat) - s * n| ≤ t := hnear
    linarith

end

/-- **A scaled coordinate keeps its edge, unless it is rounded to zero.**  A whole coordinate is
    scaled to a whole one within half a pixel, which is written as the number that it is and read
    back as itself where it fits a mantissa.  It counts from the far edge exactly if the coordinate
    does and is not rounded to zero.  Then, on any canvas, the layer stands at the scaled place up
    to half a pixel and what the sizes of the layer and the canvas are off the scaled ones.  A
    coordinate that is rounded to zero puts the layer at the near edge, from where it was less than
    half a pixel before the far one. -/
theorem scaled_keeps (px : Int) {s : Rat} (hs : 0 < s) (hs' : s ≤ 1) :
    ∃ k : Int, (absolute (.int px)).scaled s = .ok (absolute (.int k)) ∧
      IsScaled s (1 / 2) px k ∧
      written? (absolute (.int k)).text = some (k : Rat) ∧
      (k.natAbs < 2 ^ 53 → ofText (absolute (.int k)).text = .ok (absolute (.int k))) ∧
      (k < 0 ↔ px < 0 ∧ ¬ LosesEdge px s) ∧
      ∀ (extent canvas extent' canvas' : Rat) (near far : Side) (fallback : Rat),
        ∃ x x', resolve (some (absolute (.int px))) extent canvas near far fallback = .ok x ∧
          resolve (some (absolute (.int k))) extent' canvas' near far fallback = .ok x' ∧
          (¬ LosesEdge px s →
            |x' - s * x| ≤ 1 / 2 + |canvas' - s * canvas| + |extent' - s * extent|) ∧
          (LosesEdge px s → x' = 0 ∧ s * (canvas - extent) - 1 / 2 < s * x) := by
  obtain ⟨k, hscaled, hnear, hneg, hzero⟩ := exists_scaled px hs hs'
  refine ⟨k, hscaled, hnear, written?_text_int k, ofText_text_int, hneg, ?_⟩
  intro extent canvas extent' canvas' near far fallback
  have hx := resolve_int extent canvas near far fallback px
  have hx' := resolve_int extent' canvas' near far fallback k
  refine ⟨_, _, hx, hx', fun hkept => ?_, fun hloses => ?_⟩
  · have hedge : k < 0 ↔ px < 0 := hneg.trans (and_iff_left hkept)
    exact resolve_near extent canvas near far fallback hnear hedge extent' canvas' hx hx'
  · obtain ⟨hpx, hsmall⟩ := hloses
    rw [hzero ⟨hpx, hsmall⟩, if_neg (lt_irrefl 0), if_pos hpx]
    refine ⟨Int.cast_zero, ?_⟩
    linarith

/-- A pixel before the far edge becomes the near edge at two fifths, and two pixels become one. -/
theorem scaled_keeps_fifths :
    (0 : Rat) < 2 / 5 ∧ (2 / 5 : Rat) ≤ 1 ∧
      (absolute (.int (-1))).scaled (2 / 5 : Rat) = .ok (absolute (.int 0)) ∧
      (absolute (.int (-2))).scaled (2 / 5 : Rat) = .ok (absolute (.int (-1))) ∧
      ofText (absolute (.int (-1))).text = .ok (absolute (.int (-1))) ∧
      resolve (some (absolute (.int (-1)))) (10 : Rat) 100 .left .right 0 = .ok 89 ∧
      resolve (some (absolute (.int 0))) (4 : Rat) 40 .left .right 0 = .ok 0 := by
  have hs : (0 : Rat) < 2 / 5 := by norm_num
  have hs' : (2 / 5 : Rat) ≤ 1 := by norm_num
  have hloses : LosesEdge (-1) (2 / 5) := ⟨by decide, by norm_num⟩
  have hkeeps : ¬ LosesEdge (-2) (2 / 5) := fun h => absurd h.2 (by norm_num)
  obtain ⟨k, hk, hnear, -, -, hneg, hplace⟩ := scaled_keeps (-1) hs hs'
  obtain ⟨m, hm, hnear', -, hread, hneg', -⟩ := scaled_keeps (-2) hs hs'
  obtain rfl : k = 0 := by
    have hupper : (k : Rat) < 1 := by
      have := (abs_le.mp hnear).2
      push_cast at this
      linarith
    have hupper' : k < 1 := by exact_mod_cast hupper
    have hlower : ¬ k < 0 := fun h => (hneg.mp h).2 hloses
    omega
  obtain rfl : m = -1 := by
    have hlower : (-2 : Rat) < m := by
      have := (abs_le.mp hnear').1
      push_cast at this
      linarith
    have hlower' : -2 < m := by exact_mod_cast hlower
    have hupper : m < 0 := hneg'.mpr ⟨by decide, hkeeps⟩
    omega
  obtain ⟨x, x', hx, hx', -, hlost⟩ := hplace 10 100 4 40 .left .right 0
  rw [(hlost hloses).1] at hx'
  refine ⟨hs, hs', hk, hm, hread (by decide), ?_, hx'⟩
  rw [resolve_int]
  norm_num

end Retouch.Position
