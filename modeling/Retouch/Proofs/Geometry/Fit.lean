/-
  Sizes that are fitted in.

  Fitting in scales a source by the greatest factor, at most one, with which no axis exceeds what
  is asked of it (`le_fitted_iff`), and rounds each axis on its own.  Everything that is asked is a
  whole number, as is the source, so rounding up leads out of neither (`round_le`).  Where the
  factor is less than one an axis asked for it, and that one gets what it asked exactly.  Main
  result: `Params.fitted_tightly`.
-/
import Retouch.Proofs.Geometry.Extent

namespace Retouch

/-! ## Rounding to pixels -/

/-- What does not exceed a whole number is not rounded beyond it. -/
theorem round_le {x : Rat} {n : Int} (h : x ≤ n) : ⌊x + 1 / 2⌋ ≤ n := by
  rw [← Int.lt_add_one_iff, Int.floor_lt]
  push_cast
  linarith

theorem round_mono {x y : Rat} (h : x ≤ y) : ⌊x + 1 / 2⌋ ≤ ⌊y + 1 / 2⌋ :=
  Int.floor_le_floor (by linarith)

/-- A whole number is not rounded. -/
theorem round_whole (n : Int) : ⌊(n : Rat) + 1 / 2⌋ = n := by
  have h := Except.ok.inj (Scalar.scaleRound_one n)
  rwa [mul_one] at h

/-! ## What is asked of an axis -/

theorem Axis.forall_iff {P : Axis → Prop} : (∀ axis, P axis) ↔ P .horizontal ∧ P .vertical := by
  constructor
  · intro h
    exact ⟨h .horizontal, h .vertical⟩
  · rintro ⟨hacross, hdown⟩ axis
    cases axis with
    | horizontal => exact hacross
    | vertical => exact hdown

/-- What is asked of an axis, if anything is. -/
def Axis.asked : Axis → Option Int × Option Int → Option Int
  | .horizontal => Prod.fst
  | .vertical => Prod.snd

/-- Whether all that is asked is asked of another one, too, and no more than there. -/
def Roomier (aim aim' : Option Int × Option Int) : Prop :=
  ∀ (axis : Axis) (n' : Int), axis.asked aim' = some n' → ∃ n, axis.asked aim = some n ∧ n ≤ n'

section

variable {source : Size} {aim aim' : Option Int × Option Int}

/-- A source is fitted in at the greatest scale, at most one, with which no axis exceeds what is
    asked of it. -/
theorem le_fitted_iff {k : Rat} : k ≤ min (aimScale source aim) 1 ↔
    k ≤ 1 ∧ ∀ (axis : Axis) (n : Int), axis.asked aim = some n → k ≤ n / axis.extent source := by
  rw [Axis.forall_iff, le_min_iff, and_comm]
  refine and_congr_right fun hk => ?_
  obtain ⟨width, height⟩ := aim
  show k ≤ aimScale source (width, height) ↔
    (∀ w : Int, width = some w → k ≤ w / source.width) ∧
      ∀ h : Int, height = some h → k ≤ h / source.height
  cases width with
  | none =>
      cases height with
      | none => simpa [aimScale] using hk
      | some h => simp [aimScale]
  | some w =>
      cases height with
      | none => simp [aimScale]
      | some h => simp [aimScale]

/-- The scale is one, or an axis gets what it asked. -/
theorem fitted_asked (source : Size) (aim : Option Int × Option Int) :
    min (aimScale source aim) 1 = 1 ∨ ∃ (axis : Axis) (n : Int), axis.asked aim = some n ∧
      min (aimScale source aim) 1 = n / axis.extent source := by
  rcases fitted_choice source aim with h | ⟨w, hw, h⟩ | ⟨n, hn, h⟩
  · exact .inl h
  · exact .inr ⟨.horizontal, w, hw, h⟩
  · exact .inr ⟨.vertical, n, hn, h⟩

/-- With more room the scale is no smaller. -/
theorem fitted_mono (hsource : source.Positive) (h : Roomier aim aim') :
    min (aimScale source aim) 1 ≤ min (aimScale source aim') 1 := by
  obtain ⟨hone, hasked⟩ := le_fitted_iff.mp (le_refl (min (aimScale source aim) 1))
  refine le_fitted_iff.mpr ⟨hone, fun axis n' hn' => ?_⟩
  obtain ⟨n, hn, hle⟩ := h axis n' hn'
  have hextent : (0 : Rat) < axis.extent source := by
    exact_mod_cast Size.positive_iff.mp hsource axis
  have hle : (n : Rat) ≤ n' := by exact_mod_cast hle
  exact (hasked axis n hn).trans (div_le_div_of_nonneg_right hle hextent.le)

/-! ## The size that a source is fitted in at -/

theorem extent_fitted (axis : Axis) : axis.extent (aimedSize true source aim) =
    ⌊(axis.extent source : Rat) * min (aimScale source aim) 1 + 1 / 2⌋ := by
  cases axis <;> rfl

theorem Size.within_iff_extent {s b : Size} :
    s.Within b ↔ ∀ axis : Axis, axis.extent s ≤ axis.extent b := by
  rw [Axis.forall_iff, Size.within_iff]
  rfl

/-- Whether a size is that of a source fitted into what is asked. -/
structure Size.FittedIn (source : Size) (aim : Option Int × Option Int) (size : Size) : Prop where
  /-- Nothing is enlarged. -/
  within_source : size.Within source
  /-- No axis exceeds what is asked of it. -/
  within_aim : ∀ (axis : Axis) (n : Int), axis.asked aim = some n → axis.extent size ≤ n
  /-- Nothing is shrunk, or an axis gets exactly what it asked. -/
  tight : size = source ∨ ∃ axis : Axis, axis.asked aim = some (axis.extent size)
  /-- The aspect ratio is kept but for half a pixel on each axis. -/
  aspect : 2 * |size.width * source.height - size.height * source.width| ≤
    source.width + source.height

/-- Rounding both axes of a scaled size changes its aspect by half a pixel on each. -/
theorem aspect_near {x y w h k : Rat} (hw : 0 ≤ w) (hh : 0 ≤ h) (hx : |x - w * k| ≤ 1 / 2)
    (hy : |y - h * k| ≤ 1 / 2) : 2 * |x * h - y * w| ≤ w + h := by
  have hsplit : x * h - y * w = (x - w * k) * h - (y - h * k) * w := by ring
  calc 2 * |x * h - y * w|
      = 2 * |(x - w * k) * h - (y - h * k) * w| := by rw [hsplit]
    _ ≤ 2 * (|(x - w * k) * h| + |(y - h * k) * w|) := by
        linarith [abs_sub ((x - w * k) * h) ((y - h * k) * w)]
    _ = 2 * (|x - w * k| * h + |y - h * k| * w) := by
        rw [abs_mul, abs_mul, abs_of_nonneg hh, abs_of_nonneg hw]
    _ ≤ w + h := by
        linarith [mul_le_mul_of_nonneg_right hx hh, mul_le_mul_of_nonneg_right hy hw]

/-- A source is fitted in tightly. -/
theorem Size.Positive.fittedIn (hsource : source.Positive) (aim : Option Int × Option Int) :
    source.FittedIn aim (aimedSize true source aim) := by
  obtain ⟨hone, hasked⟩ := le_fitted_iff.mp (le_refl (min (aimScale source aim) 1))
  have hextent : ∀ axis : Axis, (0 : Rat) < axis.extent source := fun axis => by
    exact_mod_cast Size.positive_iff.mp hsource axis
  refine ⟨?source, fun axis n hn => ?aim, ?tight, ?aspect⟩
  case source =>
    refine Size.within_iff_extent.mpr fun axis => ?_
    rw [extent_fitted]
    exact round_le (mul_le_of_le_one_right (hextent axis).le hone)
  case aim =>
    rw [extent_fitted]
    exact round_le ((le_div_iff₀' (hextent axis)).mp (hasked axis n hn))
  case tight =>
    rcases fitted_asked source aim with h | ⟨axis, n, hn, h⟩
    · exact .inl (aimedSize_whole (h ▸ min_le_left _ _))
    · refine .inr ⟨axis, ?_⟩
      rw [extent_fitted, h, mul_div_cancel₀ _ (hextent axis).ne', round_whole, hn]
  case aspect =>
    have h := aspect_near (hextent .horizontal).le (hextent .vertical).le
      (round_near (source.width * min (aimScale source aim) 1))
      (round_near (source.height * min (aimScale source aim) 1))
    exact_mod_cast h

/-- What is within what is asked is not scaled when it is fitted in again. -/
theorem aimedSize_of_within {size : Size} (hsize : size.Positive)
    (h : ∀ (axis : Axis) (n : Int), axis.asked aim = some n → axis.extent size ≤ n) :
    aimedSize true size aim = size := by
  have hwhole : 1 ≤ min (aimScale size aim) 1 := by
    refine le_fitted_iff.mpr ⟨le_rfl, fun axis n hn => ?_⟩
    have hextent : (0 : Rat) < axis.extent size := by
      exact_mod_cast Size.positive_iff.mp hsize axis
    rw [one_le_div hextent]
    exact_mod_cast h axis n hn
  exact aimedSize_whole (hwhole.trans (min_le_left _ _))

theorem aimedSize_mono (hsource : source.Positive) (h : Roomier aim aim') :
    (aimedSize true source aim).Within (aimedSize true source aim') := by
  refine Size.within_iff_extent.mpr fun axis => ?_
  have hextent : (0 : Rat) < axis.extent source := by
    exact_mod_cast Size.positive_iff.mp hsource axis
  rw [extent_fitted, extent_fitted]
  exact round_mono (mul_le_mul_of_nonneg_left (fitted_mono hsource h) hextent.le)

end

/-! ## Images that are fitted in -/

namespace Params

variable {p : Params} {natural : Size}

theorem resized_fitted (canvas : Option Size) (hfit : p.fitIn = some true)
    (hsource : (p.source natural).Positive) :
    p.resized Rat natural canvas =
      .ok (aimedSize true (p.source natural) (p.target canvas)) := by
  rw [resized_target canvas hsource, hfit]
  rfl

/-- A source without extent is not fitted into anything. -/
theorem resized_of_not_positive (canvas : Option Size) (hfit : p.fitIn = some true)
    (hsource : ¬ (p.source natural).Positive) :
    p.resized Rat natural canvas = .ok (p.source natural) := by
  have hextent : (p.source natural).width ≤ 0 ∨ (p.source natural).height ≤ 0 := by
    by_contra h
    obtain ⟨hwidth, hheight⟩ := not_or.mp h
    exact hsource ⟨not_le.mp hwidth, not_le.mp hheight⟩
  unfold resized
  simp only [hfit, hextent, if_true]
  split <;> rfl

/-- **Fitting in is a tight contraction.**  An image that is fitted in is within its source and
    within what is asked, and one of the two exactly; its aspect ratio is kept up to rounding.
    With more room it becomes no smaller, and when what it becomes is fitted into the same again,
    nothing changes. -/
theorem fitted_tightly (p : Params) (natural : Size) (canvas : Option Size)
    (hfit : p.fitIn = some true) (hsource : (p.source natural).Positive) :
    ∃ size, p.resized Rat natural canvas = .ok size ∧
      (p.source natural).FittedIn (p.target canvas) size ∧
      (∀ (q : Params) (natural' : Size) (canvas' : Option Size), q.fitIn = some true →
        q.source natural' = p.source natural → Roomier (p.target canvas) (q.target canvas') →
          ∃ size', q.resized Rat natural' canvas' = .ok size' ∧ size.Within size') ∧
      ∀ (q : Params) (natural' : Size) (canvas' : Option Size), q.fitIn = some true →
        q.source natural' = size → q.target canvas' = p.target canvas →
          q.resized Rat natural' canvas' = .ok size := by
  have hfitted := hsource.fittedIn (p.target canvas)
  refine ⟨_, resized_fitted canvas hfit hsource, hfitted, ?roomier, ?again⟩
  case roomier =>
    intro q natural' canvas' hqfit hqsource hroomier
    have hpositive : (q.source natural').Positive := hqsource ▸ hsource
    refine ⟨_, resized_fitted canvas' hqfit hpositive, ?_⟩
    rw [hqsource]
    exact aimedSize_mono hsource hroomier
  case again =>
    intro q natural' canvas' hqfit hqsource hqtarget
    by_cases hpositive : (q.source natural').Positive
    · rw [resized_fitted canvas' hqfit hpositive, hqtarget,
        aimedSize_of_within hpositive (hqsource ▸ hfitted.within_aim), hqsource]
    · rw [resized_of_not_positive canvas' hqfit hpositive, hqsource]

/-- A width to be fitted into. -/
def halved : Params := { width := some 500, fitIn := some true }

/-- Half a pixel of the height is rounded up, and stays when the size is fitted in again. -/
theorem fitted_tightly_halved :
    halved.fitIn = some true ∧ (halved.source ⟨1000, 333⟩).Positive ∧
      halved.resized Rat ⟨1000, 333⟩ none = .ok ⟨500, 167⟩ ∧
      (halved.source ⟨1000, 333⟩).FittedIn (some 500, none) ⟨500, 167⟩ ∧
      halved.resized Rat ⟨500, 167⟩ none = .ok ⟨500, 167⟩ := by
  have hsource : (halved.source ⟨1000, 333⟩).Positive := ⟨by decide, by decide⟩
  obtain ⟨size, hsize, hfitted, -, hagain⟩ :=
    fitted_tightly halved ⟨1000, 333⟩ none rfl hsource
  have hvalue : halved.resized Rat ⟨1000, 333⟩ none = .ok ⟨500, 167⟩ := by
    with_unfolding_all rfl
  obtain rfl := Except.ok.inj (hvalue.symm.trans hsize)
  exact ⟨rfl, hsource, hsize, hfitted, hagain halved ⟨500, 167⟩ none rfl rfl rfl⟩

end Params

end Retouch
