/-
  Previews within their bounds.

  The scale of a preview brings the size of an image down to the bounds, but it is applied to what
  the size comes from: the wanted extents and the padding.  Both give about the scaled size when
  every axis has an extent that is aimed at (`Params.Previews.even`).  An axis without one stays as
  large as the source (`Params.Previews.width_kept`), and an image that would have to be enlarged
  to be fitted in is shrunk less than the scale says, if at all (`Params.Previews.fitted`).  The
  scale itself is there unless an axis of the image vanishes (`State.previewScale_eq`).  Main
  result: `State.preview_fits`.
-/
import Mathlib.Algebra.Order.Group.MinMax
import Mathlib.Algebra.Order.Field.Basic
import Mathlib.Data.Rat.Floor
import Mathlib.Tactic.Linarith
import Mathlib.Tactic.Positivity
import Mathlib.Tactic.Ring
import Retouch.Editor.Canvas
import Retouch.Proofs.Output

namespace Retouch

/-! ## Scaled extents -/

/-- Whether a whole number is another one scaled, up to a tolerance. -/
def IsScaled (k tolerance : Rat) (n m : Int) : Prop := |(m : Rat) - k * n| ≤ tolerance

namespace IsScaled

variable {k s t : Rat} {a a' b b' : Int}

theorem mono (h : IsScaled k s a a') (hst : s ≤ t) : IsScaled k t a a' := le_trans h hst

theorem add (ha : IsScaled k s a a') (hb : IsScaled k t b b') :
    IsScaled k (s + t) (a + b) (a' + b') := by
  have hsplit : ((a' + b' : Int) : Rat) - k * (a + b : Int) = (a' - k * a) + (b' - k * b) := by
    push_cast
    ring
  rw [IsScaled, hsplit]
  exact (abs_add_le _ _).trans (add_le_add ha hb)

/-- A number at full scale. -/
theorem refl (h : 0 ≤ t) (n : Int) : IsScaled 1 t n n := by
  rw [IsScaled, one_mul, sub_self, abs_zero]
  exact h

/-- A number that is scaled to within a limit exceeds it by the tolerance at most. -/
theorem le_add (h : IsScaled k t a a') (hlimit : k * a ≤ b) : (a' : Rat) ≤ b + t := by
  have hupper := (abs_le.mp h).2
  linarith

end IsScaled

/-- Rounding is off by half a pixel at most. -/
theorem round_near (x : Rat) : |(⌊x + 1 / 2⌋ : Rat) - x| ≤ 1 / 2 := by
  have hle := Int.floor_le (x + 1 / 2)
  have hlt := Int.lt_floor_add_one (x + 1 / 2)
  rw [abs_le]
  constructor <;> linarith

/-- Half a pixel and more is rounded to a pixel at least. -/
theorem round_pos_iff {x : Rat} : 0 < ⌊x + 1 / 2⌋ ↔ 1 / 2 ≤ x := by
  rw [Int.floor_pos]
  constructor <;> intro h <;> linarith

theorem round_nonneg {x : Rat} (hx : 0 ≤ x) : 0 ≤ ⌊x + 1 / 2⌋ :=
  Int.floor_nonneg.mpr (by linarith)

theorem scaleRound_near (n : Int) (k : Rat) :
    ∃ m, Scalar.scaleRound n k = .ok m ∧ IsScaled k (1 / 2) n m := by
  refine ⟨⌊(n : Rat) * k + 1 / 2⌋, rfl, ?_⟩
  rw [IsScaled, mul_comm k]
  exact round_near _

/-- Whether an extent that may be aimed at is another one scaled, up to a pixel. -/
inductive ScaledExtent (k : Rat) : Option Int → Option Int → Prop where
  | none : ScaledExtent k none none
  | some {n m : Int} (pos : 0 < m) (near : IsScaled k 1 n m) : ScaledExtent k (some n) (some m)

namespace ScaledExtent

variable {k : Rat} {e e' : Option Int}

/-- An extent that is aimed at comes out scaled. -/
theorem getD (h : ScaledExtent k e e') (he : e ≠ .none) (d : Int) :
    IsScaled k 1 (e.getD d) (e'.getD d) := by
  cases h with
  | none => exact absurd rfl he
  | some _ near => exact near

/-- At full scale an extent is its own. -/
theorem refl (he : ∀ n, e = .some n → 0 < n) : ScaledExtent 1 e e := by
  cases e with
  | none => exact .none
  | some n => exact .some (he n rfl) (.refl (by norm_num) n)

/-- Where no extent is aimed at, none is at any scale. -/
theorem isNone_eq (h : ScaledExtent k e e') : e'.isNone = e.isNone := by
  cases h with
  | none => rfl
  | some _ _ => rfl

end ScaledExtent

/-- An extent that is there is wanted. -/
theorem Params.wanted_pos {n : Int} (hn : 0 < n) : wanted (some n) = some n := by
  simp [wanted, Option.filter, hn.ne']

/-- An extent is scaled to a pixel at least, which is off by less than a pixel. -/
theorem scaledExtent_near {k : Rat} (hk : 0 < k) {n : Int} (hn : 0 < n) :
    ∃ m, scaledExtent k (some n) = .ok (some m) ∧ 0 < m ∧ IsScaled k 1 n m := by
  obtain ⟨m, hround, hnear⟩ := scaleRound_near n k
  refine ⟨max 1 m, ?_, by omega, ?_⟩
  · rw [scaledExtent, Params.wanted_pos hn]
    simp only [hround]
    rfl
  · rcases le_or_gt 1 m with hm | hm
    · rw [max_eq_right hm]
      exact hnear.mono (by norm_num)
    · -- What is rounded to no pixel was less than half of one.
      rw [max_eq_left hm.le]
      have hm' : (m : Rat) ≤ 0 := by exact_mod_cast (by omega : m ≤ 0)
      have hscaled : 0 < k * n := by
        have hn' : (0 : Rat) < n := by exact_mod_cast hn
        positivity
      have hsmall := (abs_le.mp hnear).1
      rw [IsScaled, abs_le]
      push_cast
      constructor <;> linarith

/-! ## Scaled sizes -/

namespace Size

/-- Whether a size has an extent on both axes. -/
structure Positive (s : Size) : Prop where
  width : 0 < s.width
  height : 0 < s.height

/-- Whether a size is within bounds. -/
structure Within (s b : Size) : Prop where
  width : s.width ≤ b.width
  height : s.height ≤ b.height

theorem within_iff {s b : Size} : s.Within b ↔ s.width ≤ b.width ∧ s.height ≤ b.height :=
  ⟨fun h => ⟨h.width, h.height⟩, fun h => ⟨h.1, h.2⟩⟩

/-- Whether both extents of a size are those of another one scaled, up to a tolerance. -/
structure Scaled (k tolerance : Rat) (s t : Size) : Prop where
  width : IsScaled k tolerance s.width t.width
  height : IsScaled k tolerance s.height t.height

/-- How much longer one axis of a size is than the other. -/
def aspect (s : Size) : Rat := max (s.width / s.height) (s.height / s.width)

theorem Positive.one_le_aspect {s : Size} (h : s.Positive) : 1 ≤ s.aspect := by
  have hwidth : (0 : Rat) < s.width := by exact_mod_cast h.width
  have hheight : (0 : Rat) < s.height := by exact_mod_cast h.height
  rcases le_total (s.width : Rat) s.height with hle | hle
  · exact le_max_of_le_right ((one_le_div hwidth).mpr hle)
  · exact le_max_of_le_left ((one_le_div hheight).mpr hle)

theorem Scaled.swapped {k t : Rat} {s s' : Size} (h : s.Scaled k t s') :
    s.swapped.Scaled k t s'.swapped :=
  ⟨h.height, h.width⟩

/-- Two sizes that are turned alike are as far apart as before. -/
theorem Scaled.turned {k t : Rat} {s s' : Size} (h : s.Scaled k t s') (p : Params) :
    (p.turned s).Scaled k t (p.turned s') := by
  unfold Params.turned
  split
  · exact h.swapped
  · exact h

end Size

/-! ## Extents that are aimed at -/

namespace Params

/-- Whether no axis waits for a canvas: none follows it, or there is none. -/
def Settled (p : Params) (canvas : Option Size) : Prop :=
  canvas = none ∨ p.widthFull ≠ some true ∧ p.heightFull ≠ some true

theorem settled_resolveFill (p : Params) (canvas : Option Size) :
    (p.resolveFill canvas).Settled canvas := by
  cases canvas with
  | none => exact .inl rfl
  | some c => exact .inr (p.not_full_resolveFill c)

/-- Settled settings want what they say in pixels. -/
theorem Settled.target {p : Params} {canvas : Option Size} (h : p.Settled canvas) :
    p.target canvas = (wanted p.width, wanted p.height) := by
  rcases h with rfl | ⟨hwidth, hheight⟩
  · unfold Params.target
    simp
  · exact target_of_not_full hwidth hheight canvas

/-- The extents that a resize aims at: the wanted ones, or the source as it is. -/
def aim (p : Params) (source : Size) : Option Int × Option Int :=
  if (wanted p.width).isNone && (wanted p.height).isNone then
    (some source.width, some source.height)
  else (wanted p.width, wanted p.height)

end Params

/-- The scale at which a source fits into the extents that are aimed at, enlarged if need be. -/
def aimScale (source : Size) : Option Int × Option Int → Rat
  | (some w, some h) => min (w / source.width) (h / source.height)
  | (some w, none) => w / source.width
  | (none, some h) => h / source.height
  | (none, none) => 1

/-- The size that a source is resized to. -/
def aimedSize (fitIn : Bool) (source : Size) (aim : Option Int × Option Int) : Size :=
  if fitIn then
    ⟨⌊source.width * min (aimScale source aim) 1 + 1 / 2⌋,
      ⌊source.height * min (aimScale source aim) 1 + 1 / 2⌋⟩
  else ⟨aim.1.getD source.width, aim.2.getD source.height⟩

theorem scalar_min (a b : Rat) : Scalar.min a b = min a b := by
  rw [min_comm, min_def]
  show (if b < a then b else a) = _
  split_ifs <;> first | rfl | linarith

/-- Fitting a source in takes the scale of what is aimed at, but never enlarges. -/
theorem fitScale_eq {source : Size} (hsource : source.Positive) (width height : Option Int) :
    fitScale Rat source width height = .ok (min (aimScale source (width, height)) 1) := by
  have hquotient : ∀ n d : Int, 0 < d →
      (Scalar.quotient n d : Except Number.Fault Rat) = .ok ((n : Rat) / d) := by
    intro n d hd
    exact if_neg (by omega)
  unfold fitScale
  cases width <;> cases height <;>
    simp only [Option.mapM_some, Option.mapM_none, hquotient _ _ hsource.width,
      hquotient _ _ hsource.height]
  · show Except.ok (Scalar.min (1 : Rat) 1) = _
    rw [scalar_min]
    rfl
  · exact congrArg Except.ok (scalar_min _ _)
  · exact congrArg Except.ok (scalar_min _ _)
  · show Except.ok (Scalar.min (Scalar.min _ _) (1 : Rat)) = _
    rw [scalar_min, scalar_min]
    rfl

/-- What would have to be enlarged to be fitted in stays as large as the source. -/
theorem aimedSize_whole {source : Size} {aim : Option Int × Option Int}
    (hask : 1 ≤ aimScale source aim) : aimedSize true source aim = source := by
  have hround : ∀ n : Int, ⌊(n : Rat) * 1 + 1 / 2⌋ = n := fun n =>
    Except.ok.inj (Scalar.scaleRound_one n)
  unfold aimedSize
  rw [if_pos rfl, min_eq_right hask, hround, hround]

/-- A source that nothing is aimed at is not resized. -/
theorem aimedSize_none (fitIn : Bool) (source : Size) :
    aimedSize fitIn source (none, none) = source := by
  cases fitIn with
  | false => rfl
  | true => exact aimedSize_whole le_rfl

/-- A source that is aimed at its own size keeps it. -/
theorem aimedSize_self {source : Size} (hsource : source.Positive) (fitIn : Bool) :
    aimedSize fitIn source (some source.width, some source.height) = source := by
  cases fitIn with
  | false => rfl
  | true =>
      have hwidth : (source.width : Rat) ≠ 0 := by exact_mod_cast hsource.width.ne'
      have hheight : (source.height : Rat) ≠ 0 := by exact_mod_cast hsource.height.ne'
      apply aimedSize_whole
      rw [aimScale, div_self hwidth, div_self hheight, min_self]

/-- A source is resized to what is wanted, which is nothing else without a wanted size. -/
theorem Params.resized_target {p : Params} {natural : Size} (canvas : Option Size)
    (hsource : (p.source natural).Positive) :
    p.resized Rat natural canvas =
      .ok (aimedSize (p.fitIn = some true) (p.source natural) (p.target canvas)) := by
  have hextent : ¬ ((p.source natural).width ≤ 0 ∨ (p.source natural).height ≤ 0) := by
    have hwidth := hsource.width
    have hheight := hsource.height
    omega
  unfold resized
  simp only
  split
  · rename_i hnone
    rw [hnone, aimedSize_none]
  · rename_i width height _ heq
    rw [heq]
    by_cases hfit : p.fitIn = some true
    · simp only [hfit, if_true, if_neg hextent, fitScale_eq hsource]
      rfl
    · simp only [hfit, if_false]
      rfl

/-- Settled settings resize a source to what they aim at. -/
theorem Params.resized_eq {p : Params} {natural : Size} {canvas : Option Size}
    (hsettled : p.Settled canvas) (hsource : (p.source natural).Positive) :
    p.resized Rat natural canvas =
      .ok (aimedSize (p.fitIn = some true) (p.source natural) (p.aim (p.source natural))) := by
  rw [resized_target canvas hsource, hsettled.target]
  by_cases hnone : (wanted p.width).isNone && (wanted p.height).isNone
  · have haim : p.aim (p.source natural) =
        (some (p.source natural).width, some (p.source natural).height) := if_pos hnone
    rw [Bool.and_eq_true_iff, Option.isNone_iff_eq_none, Option.isNone_iff_eq_none] at hnone
    rw [haim, hnone.1, hnone.2, aimedSize_none, aimedSize_self hsource]
  · have haim : p.aim (p.source natural) = (wanted p.width, wanted p.height) := if_neg hnone
    rw [haim]

/-! ## Aiming at scaled extents -/

/-- Whether extents that are aimed at are others scaled, up to a pixel on each axis. -/
structure ScaledAim (k : Rat) (aim aim' : Option Int × Option Int) : Prop where
  width : ScaledExtent k aim.1 aim'.1
  height : ScaledExtent k aim.2 aim'.2

/-- A pixel that an extent is off by counts in the scale as the part of the source that it is. -/
theorem div_near {k : Rat} {n m d : Int} (hd : 0 < d) (h : IsScaled k 1 n m) :
    |(m : Rat) / d - k * (n / d)| ≤ 1 / d := by
  have hd' : (0 : Rat) < d := by exact_mod_cast hd
  have hsplit : (m : Rat) / d - k * (n / d) = (m - k * n) / d := by ring
  rw [hsplit, abs_div, abs_of_pos hd']
  exact div_le_div_of_nonneg_right h hd'.le

namespace ScaledAim

variable {k : Rat} {source : Size} {aim aim' : Option Int × Option Int}

/-- Scaled extents are fitted in at about the scaled scale. -/
theorem aimScale_near (h : ScaledAim k aim aim') (hk : 0 ≤ k) (hsource : source.Positive)
    (haim : aim ≠ (none, none)) :
    |aimScale source aim' - k * aimScale source aim| ≤
      max (1 / (source.width : Rat)) (1 / source.height) := by
  obtain ⟨width, height⟩ := aim
  obtain ⟨width', height'⟩ := aim'
  obtain ⟨hwidth, hheight⟩ := h
  unfold aimScale
  cases hwidth with
  | none =>
      cases hheight with
      | none => exact absurd rfl haim
      | some _ near =>
          simp only
          exact le_max_of_le_right (div_near hsource.height near)
  | some _ near =>
      cases hheight with
      | none =>
          simp only
          exact le_max_of_le_left (div_near hsource.width near)
      | some _ near' =>
          -- The lesser of two scales is as far off as the worse of them.
          simp only
          rw [mul_min_of_nonneg _ _ hk]
          exact (abs_min_sub_min_le_max _ _ _ _).trans
            (max_le_max (div_near hsource.width near) (div_near hsource.height near'))

/-- What comes of a scale that is off by a pixel on one of the axes. -/
theorem extent_near {k x y : Rat} {d e : Int} (hd : 0 < d)
    (h : |x - k * y| ≤ max (1 / (d : Rat)) (1 / e)) :
    |(⌊(d : Rat) * min x 1 + 1 / 2⌋ : Rat) - d * min (k * y) 1| ≤ 1 / 2 + max 1 (d / e : Rat) := by
  have hd' : (0 : Rat) < d := by exact_mod_cast hd
  -- Not enlarging brings two scales no further apart.
  have hmin : |min x 1 - min (k * y) 1| ≤ max (1 / (d : Rat)) (1 / e) := by
    have hlipschitz := abs_min_sub_min_le_max x 1 (k * y) 1
    rw [sub_self, abs_zero, max_eq_left (abs_nonneg _)] at hlipschitz
    exact hlipschitz.trans h
  calc |(⌊(d : Rat) * min x 1 + 1 / 2⌋ : Rat) - d * min (k * y) 1|
      = |((⌊(d : Rat) * min x 1 + 1 / 2⌋ : Rat) - d * min x 1) +
          d * (min x 1 - min (k * y) 1)| := by
        congr 1
        ring
    _ ≤ |(⌊(d : Rat) * min x 1 + 1 / 2⌋ : Rat) - d * min x 1| +
          |d * (min x 1 - min (k * y) 1)| := abs_add_le _ _
    _ ≤ 1 / 2 + d * max (1 / (d : Rat)) (1 / e) := by
        rw [abs_mul, abs_of_pos hd']
        exact add_le_add (round_near _) (mul_le_mul_of_nonneg_left hmin hd'.le)
    _ = 1 / 2 + max 1 (d / e : Rat) := by
        rw [mul_max_of_nonneg _ _ hd'.le, mul_one_div, div_self hd'.ne', mul_one_div]

/-- Without fitting in, what is aimed at on both axes is scaled. -/
theorem even (h : ScaledAim k aim aim') (hacross : aim.1 ≠ none) (hdown : aim.2 ≠ none) :
    (aimedSize false source aim).Scaled k 1 (aimedSize false source aim') :=
  ⟨h.width.getD hacross source.width, h.height.getD hdown source.height⟩

/-- The width stays if only the height is aimed at. -/
theorem width_kept (h : ScaledAim k aim aim') (haim : aim ≠ (none, none)) (hacross : aim.1 = none) :
    (aimedSize false source aim).width = source.width ∧
      (aimedSize false source aim').width = source.width ∧
      IsScaled k 1 (aimedSize false source aim).height (aimedSize false source aim').height := by
  have hacross' : aim'.1 = none := by
    rw [← Option.isNone_iff_eq_none, h.width.isNone_eq, hacross]
    rfl
  have hdown : aim.2 ≠ none := fun hnone => haim (Prod.ext hacross hnone)
  refine ⟨?_, ?_, h.height.getD hdown source.height⟩
  · show aim.1.getD source.width = source.width
    rw [hacross]
    rfl
  · show aim'.1.getD source.width = source.width
    rw [hacross']
    rfl

/-- The height stays if only the width is aimed at. -/
theorem height_kept (h : ScaledAim k aim aim') (haim : aim ≠ (none, none)) (hdown : aim.2 = none) :
    (aimedSize false source aim).height = source.height ∧
      (aimedSize false source aim').height = source.height ∧
      IsScaled k 1 (aimedSize false source aim).width (aimedSize false source aim').width := by
  have hdown' : aim'.2 = none := by
    rw [← Option.isNone_iff_eq_none, h.height.isNone_eq, hdown]
    rfl
  have hacross : aim.1 ≠ none := fun hnone => haim (Prod.ext hnone hdown)
  refine ⟨?_, ?_, h.width.getD hacross source.width⟩
  · show aim.2.getD source.height = source.height
    rw [hdown]
    rfl
  · show aim'.2.getD source.height = source.height
    rw [hdown']
    rfl

/-- What is fitted in comes out at the scale of what is aimed at, times `k`, but never enlarged. -/
theorem fitted (h : ScaledAim k aim aim') (hk : 0 ≤ k) (hsource : source.Positive)
    (haim : aim ≠ (none, none)) :
    |((aimedSize true source aim').width : Rat) -
        source.width * min (k * aimScale source aim) 1| ≤ 1 / 2 + source.aspect ∧
      |((aimedSize true source aim').height : Rat) -
        source.height * min (k * aimScale source aim) 1| ≤ 1 / 2 + source.aspect := by
  have hnear := h.aimScale_near hk hsource haim
  constructor
  · refine (extent_near hsource.width hnear).trans (add_le_add_right ?_ _)
    exact max_le hsource.one_le_aspect (le_max_left _ _)
  · rw [max_comm] at hnear
    refine (extent_near hsource.height hnear).trans (add_le_add_right ?_ _)
    exact max_le hsource.one_le_aspect (le_max_right _ _)

/-- What does not have to be enlarged to be fitted in is scaled, up to a pixel on the axis where
    it counts most. -/
theorem fitted_scaled (h : ScaledAim k aim aim') (hk : 0 ≤ k) (hk' : k ≤ 1)
    (hsource : source.Positive) (haim : aim ≠ (none, none)) (hask : aimScale source aim ≤ 1) :
    (aimedSize true source aim).Scaled k (1 + source.aspect) (aimedSize true source aim') := by
  have hscale : min (k * aimScale source aim) 1 = k * aimScale source aim := by
    rw [min_eq_left]
    calc k * aimScale source aim ≤ k * 1 := mul_le_mul_of_nonneg_left hask hk
      _ ≤ 1 := by rwa [mul_one]
  obtain ⟨hwidth, hheight⟩ := h.fitted hk hsource haim
  rw [hscale] at hwidth hheight
  -- The size itself is rounded too, and `k` times that is half a pixel at most.
  have hround : ∀ {d n : Int},
      |(n : Rat) - d * (k * aimScale source aim)| ≤ 1 / 2 + source.aspect →
      IsScaled k (1 + source.aspect) ⌊(d : Rat) * min (aimScale source aim) 1 + 1 / 2⌋ n := by
    intro d n hn
    rw [min_eq_left hask]
    have hhalf : |k * ((⌊(d : Rat) * aimScale source aim + 1 / 2⌋ : Rat) -
        d * aimScale source aim)| ≤ 1 / 2 := by
      rw [abs_mul, abs_of_nonneg hk]
      calc _ ≤ 1 * (1 / 2 : Rat) := mul_le_mul hk' (round_near _) (abs_nonneg _) (by norm_num)
        _ = 1 / 2 := one_mul _
    rw [IsScaled, abs_le]
    rw [abs_le] at hn hhalf
    constructor <;> linarith [hn.1, hn.2, hhalf.1, hhalf.2]
  exact ⟨hround hwidth, hround hheight⟩

end ScaledAim

/-! ## The settings of a preview -/

namespace Params

/-- What the padding adds to the extents. -/
def framing (p : Params) : Size := p.padded ⟨0, 0⟩

theorem padded_eq (p : Params) (s : Size) :
    p.padded s = ⟨s.width + p.framing.width, s.height + p.framing.height⟩ := by
  unfold framing padded
  split
  · simp
  · simp

theorem framing_eq (p : Params) :
    p.framing =
      if p.hasFill then ⟨p.padding.left + p.padding.right, p.padding.top + p.padding.bottom⟩
      else ⟨0, 0⟩ := by
  unfold framing padded
  simp

/-- The settings with other numbers of pixels. -/
def withPixels (p : Params) (width height : Option Int) (sides : Sides Int) : Params :=
  { p with
    width, height
    paddingLeft := some sides.left, paddingTop := some sides.top
    paddingRight := some sides.right, paddingBottom := some sides.bottom }

/-- The settings that the path of a preview has: the wanted size and the padding are those at the
    scale, and the rest is as it was. -/
def shrunk {α : Type} [Scalar α] (p : Params) (natural : Size) (scale : α) :
    Except Failure Params := do
  let (width, height) ← p.scaledTarget (some natural) scale
  let padding ← p.scaledPadding scale
  return p.withPixels width height (padding.getD ⟨0, 0, 0, 0⟩)

/-- Each side of the padding is scaled and rounded, also when nothing of it remains. -/
theorem scaledPadding_near (p : Params) (k : Rat) (hfill : p.hasFill) :
    ∃ padding sides, p.scaledPadding k = .ok padding ∧ padding.getD ⟨0, 0, 0, 0⟩ = sides ∧
      IsScaled k (1 / 2) p.padding.left sides.left ∧ IsScaled k (1 / 2) p.padding.top sides.top ∧
      IsScaled k (1 / 2) p.padding.right sides.right ∧
      IsScaled k (1 / 2) p.padding.bottom sides.bottom := by
  obtain ⟨left, hleft, nearLeft⟩ := scaleRound_near p.padding.left k
  obtain ⟨top, htop, nearTop⟩ := scaleRound_near p.padding.top k
  obtain ⟨right, hright, nearRight⟩ := scaleRound_near p.padding.right k
  obtain ⟨bottom, hbottom, nearBottom⟩ := scaleRound_near p.padding.bottom k
  have hscaled : p.scaledPadding k =
      if left = 0 ∧ top = 0 ∧ right = 0 ∧ bottom = 0 then .ok none
      else .ok (some ⟨left, top, right, bottom⟩) := by
    rw [scaledPadding, if_pos hfill]
    simp only [hleft, htop, hright, hbottom]
    rfl
  by_cases hzero : left = 0 ∧ top = 0 ∧ right = 0 ∧ bottom = 0
  · rw [if_pos hzero] at hscaled
    obtain ⟨rfl, rfl, rfl, rfl⟩ := hzero
    exact ⟨_, _, hscaled, rfl, nearLeft, nearTop, nearRight, nearBottom⟩
  · rw [if_neg hzero] at hscaled
    exact ⟨_, _, hscaled, rfl, nearLeft, nearTop, nearRight, nearBottom⟩

/-- What the padding adds is scaled, up to half a pixel on each side. -/
theorem framing_scaled (p : Params) (k : Rat) :
    ∃ padding, p.scaledPadding k = .ok padding ∧ ∀ width height,
      p.framing.Scaled k 1 (p.withPixels width height (padding.getD ⟨0, 0, 0, 0⟩)).framing := by
  by_cases hfill : p.hasFill
  · obtain ⟨padding, sides, hpadding, rfl, nearLeft, nearTop, nearRight, nearBottom⟩ :=
      p.scaledPadding_near k hfill
    refine ⟨padding, hpadding, fun width height => ?_⟩
    rw [framing_eq, framing_eq, if_pos hfill, if_pos (show (p.withPixels ..).hasFill from hfill)]
    constructor
    · exact (nearLeft.add nearRight).mono (by norm_num)
    · exact (nearTop.add nearBottom).mono (by norm_num)
  · refine ⟨none, if_neg hfill, fun width height => ?_⟩
    rw [framing_eq, framing_eq, if_neg hfill, if_neg (show ¬ (p.withPixels ..).hasFill from hfill)]
    constructor <;> simp [IsScaled]

end Params

/-- An extent that may be wanted is scaled if it is. -/
theorem scaledExtent_wanted {k : Rat} (hk : 0 < k) (extent : Option Int)
    (hpos : ∀ n, Params.wanted extent = some n → 0 < n) :
    ∃ e, scaledExtent k extent = .ok e ∧ ScaledExtent k (Params.wanted extent) (Params.wanted e) := by
  cases hwanted : Params.wanted extent with
  | none => exact ⟨none, by rw [scaledExtent, hwanted], .none⟩
  | some n =>
      obtain ⟨m, hm, pos, near⟩ := scaledExtent_near hk (hpos n hwanted)
      refine ⟨some m, ?_, ?_⟩
      · rw [← hm, scaledExtent, scaledExtent, hwanted, Params.wanted_pos (hpos n hwanted)]
      · rw [Params.wanted_pos pos]
        exact .some pos near

namespace Params

variable {p : Params} {natural : Size}

/-- Whether no extent is wanted that is negative. -/
structure Sensible (p : Params) : Prop where
  width : ∀ n, wanted p.width = some n → 0 < n
  height : ∀ n, wanted p.height = some n → 0 < n

theorem Sensible.aim (h : p.Sensible) {source : Size} (hsource : source.Positive) :
    (∀ n, (p.aim source).1 = some n → 0 < n) ∧ ∀ n, (p.aim source).2 = some n → 0 < n := by
  unfold Params.aim
  split
  · constructor
    · rintro n ⟨⟩
      exact hsource.width
    · rintro n ⟨⟩
      exact hsource.height
  · exact ⟨h.width, h.height⟩

/-- An axis wants what it says in pixels, or follows the canvas by a pixel at least. -/
theorem Sensible.target (h : p.Sensible) (canvas : Option Size) :
    (∀ n, (p.target canvas).1 = some n → 0 < n) ∧
      ∀ n, (p.target canvas).2 = some n → 0 < n := by
  have hfilled : ∀ c inset : Int, 0 < filled c inset := by
    intro c inset
    unfold filled
    omega
  unfold Params.target
  constructor
  · intro n hn
    simp only at hn
    split at hn
    · cases hn
      exact hfilled _ _
    · exact h.width n hn
  · intro n hn
    simp only at hn
    split at hn
    · cases hn
      exact hfilled _ _
    · exact h.height n hn

/-- Something is always aimed at. -/
theorem aim_ne_none (p : Params) (source : Size) : p.aim source ≠ (none, none) := by
  unfold aim
  split
  · simp
  · rename_i hwanted
    intro h
    rw [Prod.mk.injEq] at h
    rw [h.1, h.2] at hwanted
    exact hwanted rfl

/-- Whether the wanted size of a preview is what is aimed at, scaled. -/
def TargetScaled (p : Params) (natural : Size) (k : Rat) : Prop :=
  ∃ width height, p.scaledTarget (some natural) k = .ok (width, height) ∧ ∀ sides,
    ScaledAim k (p.aim (p.source natural))
      ((p.withPixels width height sides).aim (p.source natural))

section

variable {k : Rat}

/-- Without a wanted size it is the source that is scaled. -/
theorem scaledTarget_source (hk : 0 < k) (hone : ¬ (k == 1) = true)
    (hnone : ((wanted p.width).isNone && (wanted p.height).isNone) = true)
    (hsource : (p.source natural).Positive) :
    p.TargetScaled natural k := by
  obtain ⟨width, hwidth, widthPos, widthNear⟩ := scaledExtent_near hk hsource.width
  obtain ⟨height, hheight, heightPos, heightNear⟩ := scaledExtent_near hk hsource.height
  have hresized : p.resized Rat natural none = .ok (p.source natural) := by
    rw [Bool.and_eq_true_iff, Option.isNone_iff_eq_none, Option.isNone_iff_eq_none] at hnone
    refine resized_of_no_target Rat p natural none ?_
    rw [Settled.target (.inl rfl), hnone.1, hnone.2]
  refine ⟨some width, some height, ?_, fun sides => ?_⟩
  · unfold scaledTarget
    simp only [hone, hnone, if_true, hresized]
    show (do return (← scaledExtent k _, ← scaledExtent k _)) = _
    rw [hwidth, hheight]
    rfl
  · have haim : p.aim (p.source natural) =
        (some (p.source natural).width, some (p.source natural).height) := if_pos hnone
    have haim' : (p.withPixels (some width) (some height) sides).aim (p.source natural) =
        (some width, some height) := by
      unfold aim withPixels
      simp only [wanted_pos widthPos, wanted_pos heightPos]
      rfl
    rw [haim, haim']
    exact ⟨.some widthPos widthNear, .some heightPos heightNear⟩

/-- Otherwise it is what is wanted. -/
theorem scaledTarget_wanted (hk : 0 < k) (hone : ¬ (k == 1) = true)
    (hsome : ¬ ((wanted p.width).isNone && (wanted p.height).isNone) = true)
    (hwanted : p.Sensible) :
    p.TargetScaled natural k := by
  obtain ⟨width, hwidth, widthScaled⟩ := scaledExtent_wanted hk (wanted p.width) (by
    rw [wanted_wanted]
    exact hwanted.width)
  obtain ⟨height, hheight, heightScaled⟩ := scaledExtent_wanted hk (wanted p.height) (by
    rw [wanted_wanted]
    exact hwanted.height)
  rw [wanted_wanted] at widthScaled heightScaled
  refine ⟨width, height, ?_, fun sides => ?_⟩
  · unfold scaledTarget
    simp only [hone, hsome]
    show (do return (← scaledExtent k _, ← scaledExtent k _)) = _
    rw [hwidth, hheight]
    rfl
  · have haim : p.aim (p.source natural) = (wanted p.width, wanted p.height) := if_neg hsome
    have haim' : (p.withPixels width height sides).aim (p.source natural) =
        (wanted width, wanted height) := by
      refine if_neg ?_
      show ¬ ((wanted width).isNone && (wanted height).isNone) = true
      rwa [widthScaled.isNone_eq, heightScaled.isNone_eq]
    rw [haim, haim']
    exact ⟨widthScaled, heightScaled⟩

theorem scaledTarget_aim (hk : 0 < k) (hsource : (p.source natural).Positive)
    (hwanted : p.Sensible) : p.TargetScaled natural k := by
  by_cases hone : (k == 1) = true
  · -- At full scale the wanted size is taken as it is.
    obtain rfl : k = 1 := eq_of_beq hone
    refine ⟨wanted p.width, wanted p.height, by rw [scaledTarget, if_pos hone], fun sides => ?_⟩
    have haim : (p.withPixels (wanted p.width) (wanted p.height) sides).aim (p.source natural) =
        p.aim (p.source natural) := by
      unfold aim withPixels
      simp only [wanted_wanted]
    obtain ⟨hwidth, hheight⟩ := hwanted.aim hsource
    rw [haim]
    exact ⟨.refl hwidth, .refl hheight⟩
  · by_cases hnone : ((wanted p.width).isNone && (wanted p.height).isNone) = true
    · exact scaledTarget_source hk hone hnone hsource
    · exact scaledTarget_wanted hk hone hnone hwanted

end

/-- Whether settings are those of a preview of an image at a scale. -/
structure Shrinks (p q : Params) (natural : Size) (canvas : Option Size) (k : Rat) : Prop where
  settled : q.Settled canvas
  source : q.source natural = p.source natural
  fitIn : q.fitIn = p.fitIn
  turned : ∀ s, q.turned s = p.turned s
  framing : p.framing.Scaled k 1 q.framing
  aim : ScaledAim k (p.aim (p.source natural)) (q.aim (p.source natural))

/-- Every image has a preview at every scale. -/
theorem exists_shrunk {canvas : Option Size} (hsettled : p.Settled canvas) {k : Rat} (hk : 0 < k)
    (hsource : (p.source natural).Positive) (hwanted : p.Sensible) :
    ∃ q, p.shrunk natural k = .ok q ∧ p.Shrinks q natural canvas k := by
  obtain ⟨width, height, htarget, haim⟩ := scaledTarget_aim hk hsource hwanted
  obtain ⟨padding, hpadding, hframing⟩ := p.framing_scaled k
  refine ⟨p.withPixels width height (padding.getD ⟨0, 0, 0, 0⟩), ?_, ?_⟩
  · rw [shrunk, htarget, hpadding]
    rfl
  · exact ⟨hsettled, rfl, rfl, fun _ => rfl, hframing width height, haim _⟩

/-- At full scale the padding is kept. -/
theorem scaledPadding_one (p : Params) :
    ∃ padding, p.scaledPadding (1 : Rat) = .ok padding ∧
      (p.hasFill → padding.getD ⟨0, 0, 0, 0⟩ = p.padding) := by
  by_cases hfill : p.hasFill
  · have hscaled : p.scaledPadding (1 : Rat) =
        if p.padding.left = 0 ∧ p.padding.top = 0 ∧ p.padding.right = 0 ∧ p.padding.bottom = 0 then
          .ok none
        else .ok (some p.padding) := by
      rw [scaledPadding, if_pos hfill]
      simp only [Scalar.scaleRound_one]
      rfl
    by_cases hzero :
        p.padding.left = 0 ∧ p.padding.top = 0 ∧ p.padding.right = 0 ∧ p.padding.bottom = 0
    · rw [if_pos hzero] at hscaled
      refine ⟨none, hscaled, fun _ => ?_⟩
      obtain ⟨hleft, htop, hright, hbottom⟩ := hzero
      calc (⟨0, 0, 0, 0⟩ : Sides Int)
          = ⟨p.padding.left, p.padding.top, p.padding.right, p.padding.bottom⟩ := by
            rw [hleft, htop, hright, hbottom]
        _ = p.padding := rfl
    · rw [if_neg hzero] at hscaled
      exact ⟨some p.padding, hscaled, fun _ => rfl⟩
  · exact ⟨none, if_neg hfill, fun h => absurd h hfill⟩

/-- At full scale the preview is as large as the image. -/
theorem output_shrunk_one {q : Params} (hq : p.shrunk natural (1 : Rat) = .ok q)
    {canvas : Option Size} (hsettled : p.Settled canvas) :
    q.output Rat natural canvas = p.output Rat natural canvas := by
  have htarget : p.scaledTarget (some natural) (1 : Rat) =
      .ok (wanted p.width, wanted p.height) := by
    rw [scaledTarget, if_pos (show ((1 : Rat) == 1) = true from rfl)]
  obtain ⟨padding, hpadding, hsides⟩ := p.scaledPadding_one
  rw [shrunk, htarget, hpadding] at hq
  obtain rfl : p.withPixels (wanted p.width) (wanted p.height) (padding.getD ⟨0, 0, 0, 0⟩) = q :=
    Except.ok.inj hq
  -- Without a fill color the sides do not matter, and with one they are those of the image.
  generalize padding.getD ⟨0, 0, 0, 0⟩ = sides at hsides
  have hframe : (p.withPixels (wanted p.width) (wanted p.height) sides).SameFrame p := by
    refine ⟨fun _ => rfl, rfl, fun s => ?_, fun _ => rfl⟩
    rw [padded_eq, padded_eq, framing_eq, framing_eq]
    by_cases hfill : p.hasFill
    · rw [if_pos hfill, if_pos (show (p.withPixels ..).hasFill from hfill), ← hsides hfill]
      rfl
    · rw [if_neg hfill, if_neg (show ¬ (p.withPixels ..).hasFill from hfill)]
  have hsettled' : (p.withPixels (wanted p.width) (wanted p.height) sides).Settled canvas :=
    hsettled
  refine hframe.output_eq Rat ?_
  rw [hsettled.target, hsettled'.target]
  exact Prod.ext (wanted_wanted _) (wanted_wanted _)

end Params

/-! ## The scale of a preview -/

namespace State

variable {s : State} {natural b size : Size} {canvas : Option Size}

/-- An image of which an axis vanishes has no scale, unless it is within the bounds anyway. -/
theorem previewScale_eq (hsize : s.params.output Rat natural canvas = .ok size) :
    (s.previewScale natural canvas (some b) : Except Failure Rat) =
      if size.width ≤ b.width ∧ size.height ≤ b.height then .ok 1
      else if size.width = 0 ∨ size.height = 0 then .error (.arithmetic .divisionByZero)
      else .ok (min (b.width / size.width) (b.height / size.height)) := by
  unfold previewScale
  simp only [hsize]
  show (if size.width ≤ b.width ∧ size.height ≤ b.height then (Except.ok 1 : Except Failure Rat)
    else do
      let across ← (Scalar.quotient b.width size.width : Except Number.Fault Rat)
      let down ← (Scalar.quotient b.height size.height : Except Number.Fault Rat)
      return Scalar.min across down) = _
  -- A quotient is missing exactly where its divisor is zero.
  have hquotient : ∀ n d : Int, (Scalar.quotient n d : Except Number.Fault Rat) =
      if d = 0 then .error .divisionByZero else .ok ((n : Rat) / d) := fun _ _ => rfl
  rw [hquotient, hquotient]
  by_cases hwithin : size.width ≤ b.width ∧ size.height ≤ b.height
  · rw [if_pos hwithin, if_pos hwithin]
  · rw [if_neg hwithin, if_neg hwithin]
    by_cases hwidth : size.width = 0
    · rw [if_pos hwidth, if_pos (show size.width = 0 ∨ size.height = 0 from .inl hwidth)]
      rfl
    · rw [if_neg hwidth]
      by_cases hheight : size.height = 0
      · rw [if_pos hheight, if_pos (show size.width = 0 ∨ size.height = 0 from .inr hheight)]
        rfl
      · rw [if_neg hheight, if_neg (not_or.mpr ⟨hwidth, hheight⟩), ← scalar_min]
        rfl

end State

/-- The scale of an image that exceeds the bounds brings it down to them. -/
theorem scale_bounds {size b : Size} (hsize : size.Positive) (hbounds : b.Positive)
    (hwithin : ¬ size.Within b) {k : Rat}
    (hk : k = min (b.width / size.width : Rat) (b.height / size.height)) :
    0 < k ∧ k ≤ 1 ∧ k * size.width ≤ b.width ∧ k * size.height ≤ b.height := by
  have hwidth : (0 : Rat) < size.width := by exact_mod_cast hsize.width
  have hheight : (0 : Rat) < size.height := by exact_mod_cast hsize.height
  have hwidth' : (0 : Rat) < b.width := by exact_mod_cast hbounds.width
  have hheight' : (0 : Rat) < b.height := by exact_mod_cast hbounds.height
  have hacross : k ≤ b.width / size.width := hk.trans_le (min_le_left _ _)
  have hdown : k ≤ b.height / size.height := hk.trans_le (min_le_right _ _)
  refine ⟨?_, ?_, (le_div_iff₀ hwidth).mp hacross, (le_div_iff₀ hheight).mp hdown⟩
  · rw [hk]
    exact lt_min (div_pos hwidth' hwidth) (div_pos hheight' hheight)
  · -- One of the axes exceeds its bound.
    rw [Size.within_iff] at hwithin
    rcases not_and_or.mp hwithin with hlt | hlt
    · refine hacross.trans ((div_le_one hwidth).mpr ?_)
      exact_mod_cast (not_le.mp hlt).le
    · refine hdown.trans ((div_le_one hheight).mpr ?_)
      exact_mod_cast (not_le.mp hlt).le

/-- The scale of an image with an extent on both axes, or within the bounds, brings it down to
    them, and leaves it if it is within them. -/
theorem State.exists_previewScale {s : State} {natural b size : Size} {canvas : Option Size}
    (hsize : s.params.output Rat natural canvas = .ok size) (hbounds : b.Positive)
    (hreach : size.Within b ∨ size.Positive) :
    ∃ k : Rat, s.previewScale natural canvas (some b) = .ok k ∧ 0 < k ∧ k ≤ 1 ∧
      k * size.width ≤ b.width ∧ k * size.height ≤ b.height ∧ (size.Within b → k = 1) := by
  have hscale := previewScale_eq (b := b) hsize
  by_cases hwithin : size.Within b
  · rw [if_pos (Size.within_iff.mp hwithin)] at hscale
    refine ⟨1, hscale, one_pos, le_rfl, ?_, ?_, fun _ => rfl⟩
    · rw [one_mul]
      exact_mod_cast hwithin.width
    · rw [one_mul]
      exact_mod_cast hwithin.height
  · have hextent : size.Positive := hreach.resolve_left hwithin
    have hvanishes : ¬ (size.width = 0 ∨ size.height = 0) :=
      not_or.mpr ⟨hextent.width.ne', hextent.height.ne'⟩
    rw [if_neg (mt Size.within_iff.mpr hwithin), if_neg hvanishes] at hscale
    obtain ⟨hpos, hle, hwidth, hheight⟩ := scale_bounds hextent hbounds hwithin rfl
    exact ⟨_, hscale, hpos, hle, hwidth, hheight, fun h => absurd h hwithin⟩

/-! ## Previews within their bounds -/

/-- Whether a preview is an image scaled and exceeds the bounds, both up to a tolerance. -/
structure Size.Fits (k tolerance : Rat) (size b shown : Size) : Prop where
  scaled : size.Scaled k tolerance shown
  width : (shown.width : Rat) ≤ b.width + tolerance
  height : (shown.height : Rat) ≤ b.height + tolerance

/-- What the preview of an image with a source at a scale is like.  Of the image, `before` is the
    size that the source is resized to and `size` what it is with padding and turned; `after` and
    `shown` are the same of the preview. -/
structure Params.Previews (p : Params) (source b : Size) (k : Rat)
    (before size after shown : Size) : Prop where
  /-- The padding is scaled, whatever it stands around. -/
  framed : ∃ frame, p.framing.Scaled k 1 frame ∧
    shown = p.turned ⟨after.width + frame.width, after.height + frame.height⟩
  /-- With an extent to aim at on both axes, the preview fits. -/
  even : p.fitIn ≠ some true → (p.aim source).1 ≠ none → (p.aim source).2 ≠ none →
    size.Fits k 2 b shown
  /-- Where only the height is wanted, the width stays that of the source. -/
  width_kept : p.fitIn ≠ some true → (p.aim source).1 = none →
    before.width = source.width ∧ after.width = source.width ∧
      IsScaled k 1 before.height after.height
  /-- Where only the width is wanted, the height stays that of the source. -/
  height_kept : p.fitIn ≠ some true → (p.aim source).2 = none →
    before.height = source.height ∧ after.height = source.height ∧
      IsScaled k 1 before.width after.width
  /-- What would have to be enlarged to be fitted in stays as large as the source. -/
  fitted_whole : p.fitIn = some true → 1 ≤ aimScale source (p.aim source) → before = source
  /-- In a preview it is first enlarged less, and shrunk only below the size of the source. -/
  fitted : p.fitIn = some true →
    |(after.width : Rat) - source.width * min (k * aimScale source (p.aim source)) 1| ≤
        1 / 2 + source.aspect ∧
      |(after.height : Rat) - source.height * min (k * aimScale source (p.aim source)) 1| ≤
        1 / 2 + source.aspect
  /-- What is fitted in without being held back fits, up to what a pixel on one axis is on the
      other. -/
  fitted_even : p.fitIn = some true → aimScale source (p.aim source) ≤ 1 →
    size.Fits k (2 + source.aspect) b shown

namespace Params

variable {p q : Params} {natural b : Size} {canvas : Option Size} {k : Rat}

theorem output_eq {size : Size} (h : p.resized Rat natural canvas = .ok size) :
    p.output Rat natural canvas = .ok (p.turned (p.padded size)) := by
  rw [output, h]
  rfl

/-- What is scaled without the padding is so with it, with a pixel more of tolerance. -/
theorem Shrinks.fits (h : p.Shrinks q natural canvas k) {t : Rat} {before after : Size}
    (hscaled : before.Scaled k t after)
    (hwidth : k * (p.turned (p.padded before)).width ≤ b.width)
    (hheight : k * (p.turned (p.padded before)).height ≤ b.height) :
    (p.turned (p.padded before)).Fits k (t + 1) b (q.turned (q.padded after)) := by
  have hpadded : (p.padded before).Scaled k (t + 1) (q.padded after) := by
    rw [padded_eq, padded_eq]
    exact ⟨hscaled.width.add h.framing.width, hscaled.height.add h.framing.height⟩
  rw [h.turned]
  have hturned := hpadded.turned p
  exact ⟨hturned, hturned.width.le_add hwidth, hturned.height.le_add hheight⟩

/-- The preview of an image at a scale that brings it down to the bounds. -/
theorem Shrinks.previews (h : p.Shrinks q natural canvas k) (hsettled : p.Settled canvas)
    (hsource : (p.source natural).Positive) (hk : 0 ≤ k) (hk' : k ≤ 1) {before size : Size}
    (hbefore : p.resized Rat natural canvas = .ok before)
    (hsize : p.output Rat natural canvas = .ok size)
    (hwidth : k * size.width ≤ b.width) (hheight : k * size.height ≤ b.height) :
    ∃ after shown, q.resized Rat natural canvas = .ok after ∧
      q.output Rat natural canvas = .ok shown ∧
      p.Previews (p.source natural) b k before size after shown := by
  have hafter := resized_eq h.settled (by rwa [h.source])
  rw [h.source, h.fitIn] at hafter
  rw [output_eq hbefore] at hsize
  obtain rfl := Except.ok.inj hsize
  refine ⟨_, _, hafter, output_eq hafter, ?_⟩
  rw [resized_eq hsettled hsource] at hbefore
  obtain rfl := Except.ok.inj hbefore
  have haim := h.aim
  have hne := p.aim_ne_none (p.source natural)
  have hframed : ∀ size, ∃ frame, p.framing.Scaled k 1 frame ∧
      q.turned (q.padded size) = p.turned ⟨size.width + frame.width, size.height + frame.height⟩ :=
    fun size => ⟨q.framing, h.framing, by rw [h.turned, padded_eq]⟩
  -- To what the resize is off, the padding adds a pixel.
  by_cases hfit : p.fitIn = some true
  · simp only [hfit, decide_true] at hwidth hheight ⊢
    refine ⟨hframed _, fun hn => absurd hfit hn, fun hn => absurd hfit hn,
      fun hn => absurd hfit hn, fun _ hask => aimedSize_whole hask,
      fun _ => haim.fitted hk hsource hne, fun _ hask => ?_⟩
    have htolerance : 1 + (p.source natural).aspect + 1 = 2 + (p.source natural).aspect := by ring
    rw [← htolerance]
    exact h.fits (haim.fitted_scaled hk hk' hsource hne hask) hwidth hheight
  · simp only [hfit, decide_false] at hwidth hheight ⊢
    refine ⟨hframed _, fun _ hacross hdown => ?_, fun _ hacross => haim.width_kept hne hacross,
      fun _ hdown => haim.height_kept hne hdown, fun hyes => absurd hyes hfit,
      fun hyes => absurd hyes hfit, fun hyes => absurd hyes hfit⟩
    rw [← one_add_one_eq_two]
    exact h.fits (haim.even hacross hdown) hwidth hheight

end Params

/-- Settings that want no negative extent still do not when their axes are resolved. -/
theorem Params.Sensible.resolveFill {p : Params} (h : p.Sensible) (canvas : Option Size) :
    (p.resolveFill canvas).Sensible := by
  unfold Params.resolveFill
  split
  · constructor
    · intro n hn
      rw [(p.wanted_target canvas).1] at hn
      exact (h.target canvas).1 n hn
    · intro n hn
      rw [(p.wanted_target canvas).2] at hn
      exact (h.target canvas).2 n hn
  · exact h

/-- The size on a canvas is that of the settings with resolved axes. -/
theorem output_resolved (p : Params) (natural : Size) (canvas : Option Size) :
    (p.resolveFill canvas).output Rat natural canvas = p.output Rat natural canvas := by
  cases canvas with
  | none =>
      have hsame : p.resolveFill none = p := if_neg (by simp)
      rw [hsame]
  | some c => exact p.output_resolveFill Rat natural c (some c)

/-- A preview brings an image down to its bounds when both axes have an extent to aim at: it then
    exceeds them by two pixels at most, and is as far off the image at the scale.  An axis that is
    not wanted beside one that is stays as large as the source, and what is fitted in is shrunk
    less if it would have to be enlarged.  An image of which an axis vanishes has no preview,
    unless it is within the bounds.  All of this is in exact arithmetic: the scale and the sizes are
    rational numbers before they are rounded to whole ones, and not doubles. -/
theorem State.preview_fits (s : State) (natural b : Size) (canvas : Option Size)
    (hsource : (s.params.source natural).Positive) (hwanted : s.params.Sensible)
    (hbounds : b.Positive) :
    ∃ before size, (s.resolveFill canvas).params.resized Rat natural canvas = .ok before ∧
      s.params.output Rat natural canvas = .ok size ∧
      (¬ size.Within b ∧ (size.width = 0 ∨ size.height = 0) →
        ((s.resolveFill canvas).previewScale natural canvas (some b) : Except Failure Rat) =
          .error (.arithmetic .divisionByZero)) ∧
      (size.Within b ∨ size.Positive →
        ∃ (k : Rat) (q : Params) (after shown : Size),
          (s.resolveFill canvas).previewScale natural canvas (some b) = .ok k ∧
          (s.resolveFill canvas).params.shrunk natural k = .ok q ∧
          q.resized Rat natural canvas = .ok after ∧ q.output Rat natural canvas = .ok shown ∧
          0 < k ∧ k ≤ 1 ∧ (size.Within b → k = 1 ∧ shown = size) ∧
          (s.resolveFill canvas).params.Previews (s.params.source natural) b k before size after
            shown) := by
  obtain ⟨before, hbefore⟩ := (s.params.resolveFill canvas).succeeds_resized natural canvas
  obtain ⟨size, hsize⟩ := s.params.succeeds_output natural canvas
  have hsize' : (s.resolveFill canvas).params.output Rat natural canvas = .ok size := by
    rw [← hsize]
    exact output_resolved s.params natural canvas
  refine ⟨before, size, hbefore, hsize, ?_, ?_⟩
  · rintro ⟨hout, hvanishes⟩
    rw [Size.within_iff] at hout
    rw [previewScale_eq hsize', if_neg hout, if_pos hvanishes]
  · intro hreach
    -- The scale is known; the rest is about any scale that brings the image down to the bounds.
    obtain ⟨k, hk, hpos, hle, hwidth, hheight, hfull⟩ := exists_previewScale hsize' hbounds hreach
    have hsettled := s.params.settled_resolveFill canvas
    have hsame : (s.params.resolveFill canvas).source natural = s.params.source natural :=
      (s.params.sameFrame_resolveFill canvas).source natural
    have hsource' : ((s.params.resolveFill canvas).source natural).Positive := by rwa [hsame]
    obtain ⟨q, hq, hshrinks⟩ := Params.exists_shrunk hsettled hpos hsource'
      (hwanted.resolveFill canvas)
    obtain ⟨after, shown, hafter, hshown, hpreviews⟩ :=
      hshrinks.previews hsettled hsource' hpos.le hle hbefore hsize' hwidth hheight
    rw [hsame] at hpreviews
    refine ⟨k, q, after, shown, hk, hq, hafter, hshown, hpos, hle, fun hin => ?_, hpreviews⟩
    obtain rfl := hfull hin
    rw [Params.output_shrunk_one hq hsettled] at hshown
    exact ⟨rfl, Except.ok.inj (hshown.symm.trans hsize')⟩

/-- Nothing but a width. -/
def narrowed : State := ⟨{ width := some 600 }, none⟩

/-- Of an image with a wanted width alone, the preview is as high as the image, however small the
    bounds are. -/
theorem preview_fits_narrowed :
    (narrowed.params.source ⟨1000, 1000⟩).Positive ∧ narrowed.params.Sensible ∧
      Size.Positive ⟨500, 500⟩ ∧
      ∃ (k : Rat) (q : Params) (after : Size),
        (narrowed.resolveFill none).previewScale ⟨1000, 1000⟩ none (some ⟨500, 500⟩) = .ok k ∧
        (narrowed.resolveFill none).params.shrunk ⟨1000, 1000⟩ k = .ok q ∧
        q.resized Rat ⟨1000, 1000⟩ none = .ok after ∧ after.height = 1000 := by
  have hsource : (narrowed.params.source ⟨1000, 1000⟩).Positive := ⟨by decide, by decide⟩
  have hwanted : narrowed.params.Sensible := by
    constructor
    · rintro n ⟨⟩
      decide
    · rintro n ⟨⟩
  have hbounds : Size.Positive ⟨500, 500⟩ := ⟨by decide, by decide⟩
  obtain ⟨before, size, -, hsize, -, hpreview⟩ :=
    State.preview_fits narrowed ⟨1000, 1000⟩ ⟨500, 500⟩ none hsource hwanted hbounds
  obtain rfl : (⟨600, 1000⟩ : Size) = size := Except.ok.inj hsize
  obtain ⟨k, q, after, shown, hk, hq, hafter, -, -, -, -, hpreviews⟩ :=
    hpreview (.inr ⟨by decide, by decide⟩)
  have hkept := hpreviews.height_kept (by decide) rfl
  exact ⟨hsource, hwanted, hbounds, k, q, after, hk, hq, hafter, hkept.2.1⟩

end Retouch
