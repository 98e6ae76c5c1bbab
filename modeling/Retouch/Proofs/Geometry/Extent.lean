/-
  Sizes that vanish.

  A source is resized to at least a pixel on either axis unless it is fitted in: a wanted extent is
  a pixel at least, and an axis without one keeps the extent of the source.  Fitting in scales both
  axes by one factor, which one of them asked for, and rounds each on its own.  So that axis keeps
  what was asked (`exists_kept`), and the other may be rounded away (`Params.Vanishes`) when it is
  much shorter (`Size.Positive.half_le_fitted`).  A size with a vanished axis has no preview scale
  once the other axis exceeds the bounds.  Main result: `State.output_extents`.
-/
import Retouch.Proofs.Path.Shrink

namespace Retouch

/-! ## Extents along an axis -/

/-- The extent of a size along an axis. -/
def Axis.extent : Axis → Size → Int
  | .horizontal => Size.width
  | .vertical => Size.height

namespace Size

variable {s : Size}

theorem positive_iff : s.Positive ↔ ∀ axis : Axis, 0 < axis.extent s := by
  constructor
  · intro h axis
    cases axis with
    | horizontal => exact h.width
    | vertical => exact h.height
  · intro h
    exact ⟨h .horizontal, h .vertical⟩

/-- A turn changes at most which extent is along which axis. -/
theorem forall_extent_turned (p : Params) (P : Int → Prop) :
    (∀ axis : Axis, P (axis.extent (p.turned s))) ↔ ∀ axis : Axis, P (axis.extent s) := by
  unfold Params.turned
  split
  · constructor
    · intro h axis
      cases axis with
      | horizontal => exact h .vertical
      | vertical => exact h .horizontal
    · intro h axis
      cases axis with
      | horizontal => exact h .vertical
      | vertical => exact h .horizontal
  · exact Iff.rfl

theorem positive_turned (p : Params) : (p.turned s).Positive ↔ s.Positive := by
  rw [positive_iff, positive_iff]
  exact forall_extent_turned p (0 < ·)

/-- No axis is longer than another one by more than the aspect ratio. -/
theorem Positive.extent_le (h : s.Positive) (axis axis' : Axis) :
    (axis'.extent s : Rat) ≤ s.aspect * axis.extent s := by
  have hwidth : (0 : Rat) < s.width := by exact_mod_cast h.width
  have hheight : (0 : Rat) < s.height := by exact_mod_cast h.height
  have hsame : ∀ x : Rat, 0 < x → x ≤ s.aspect * x := fun x hx =>
    le_mul_of_one_le_left hx.le h.one_le_aspect
  cases axis with
  | horizontal =>
      cases axis' with
      | horizontal => exact hsame _ hwidth
      | vertical => exact (div_le_iff₀ hwidth).mp (le_max_right _ _)
  | vertical =>
      cases axis' with
      | horizontal => exact (div_le_iff₀ hheight).mp (le_max_left _ _)
      | vertical => exact hsame _ hheight

end Size

/-! ## Fitting in -/

section

variable {source : Size} {aim : Option Int × Option Int}

/-- The scale that a source is fitted in at is asked for by one of the axes. -/
theorem fitted_choice (source : Size) (aim : Option Int × Option Int) :
    min (aimScale source aim) 1 = 1 ∨
      (∃ w, aim.1 = some w ∧ min (aimScale source aim) 1 = w / source.width) ∨
      ∃ h, aim.2 = some h ∧ min (aimScale source aim) 1 = h / source.height := by
  rcases min_choice (aimScale source aim) 1 with hmin | hmin
  · rw [hmin]
    obtain ⟨width, height⟩ := aim
    cases width with
    | none =>
        cases height with
        | none => exact .inl rfl
        | some h => exact .inr (.inr ⟨h, rfl, rfl⟩)
    | some w =>
        cases height with
        | none => exact .inr (.inl ⟨w, rfl, rfl⟩)
        | some h =>
            rcases min_choice (w / source.width : Rat) (h / source.height) with hw | hh
            · exact .inr (.inl ⟨w, rfl, hw⟩)
            · exact .inr (.inr ⟨h, rfl, hh⟩)
  · exact .inl hmin

/-- The axis that asked for the scale keeps a pixel. -/
theorem exists_kept (hsource : source.Positive) (hwidth : ∀ n, aim.1 = some n → 0 < n)
    (hheight : ∀ n, aim.2 = some n → 0 < n) :
    ∃ axis : Axis, 1 ≤ axis.extent source * min (aimScale source aim) 1 := by
  have hone : ∀ n : Int, 0 < n → (1 : Rat) ≤ n := fun n hn => by exact_mod_cast hn
  have hasked : ∀ n d : Int, 0 < n → 0 < d → (1 : Rat) ≤ d * (n / d) := by
    intro n d hn hd
    have hd' : (d : Rat) ≠ 0 := by exact_mod_cast hd.ne'
    rw [mul_div_cancel₀ _ hd']
    exact hone n hn
  rcases fitted_choice source aim with h | ⟨w, hw, h⟩ | ⟨n, hn, h⟩
  · refine ⟨.horizontal, ?_⟩
    rw [h, mul_one]
    exact hone _ hsource.width
  · refine ⟨.horizontal, ?_⟩
    rw [h]
    exact hasked w _ (hwidth w hw) hsource.width
  · refine ⟨.vertical, ?_⟩
    rw [h]
    exact hasked n _ (hheight n hn) hsource.height

theorem fitted_pos (hsource : source.Positive) (hwidth : ∀ n, aim.1 = some n → 0 < n)
    (hheight : ∀ n, aim.2 = some n → 0 < n) : 0 < min (aimScale source aim) 1 := by
  obtain ⟨axis, hkept⟩ := exists_kept hsource hwidth hheight
  have hextent : (0 : Rat) < axis.extent source := by
    exact_mod_cast Size.positive_iff.mp hsource axis
  exact pos_of_mul_pos_right (one_pos.trans_le hkept) hextent.le

/-- No axis is rounded away of a source that is at most twice as long as wide. -/
theorem Size.Positive.half_le_fitted (hsource : source.Positive)
    (hwidth : ∀ n, aim.1 = some n → 0 < n) (hheight : ∀ n, aim.2 = some n → 0 < n)
    (haspect : source.aspect ≤ 2) (axis : Axis) :
    1 / 2 ≤ axis.extent source * min (aimScale source aim) 1 := by
  obtain ⟨axis', hkept⟩ := exists_kept hsource hwidth hheight
  have hscale := fitted_pos hsource hwidth hheight
  have hextent : (0 : Rat) < axis.extent source := by
    exact_mod_cast Size.positive_iff.mp hsource axis
  have hlonger : (axis'.extent source : Rat) ≤ 2 * axis.extent source :=
    (hsource.extent_le axis axis').trans (mul_le_mul_of_nonneg_right haspect hextent.le)
  have := mul_le_mul_of_nonneg_right hlonger hscale.le
  linarith

end

/-! ## Axes that vanish -/

namespace Params

variable {p : Params} {natural : Size} {canvas : Option Size}

/-- Whether nothing remains of an axis: the image is fitted in, less than half a pixel is left of
    its source there, and no padding is added. -/
def Vanishes (p : Params) (natural : Size) (canvas : Option Size) (axis : Axis) : Prop :=
  p.fitIn = some true ∧
    (axis.extent (p.source natural) : Rat) *
      min (aimScale (p.source natural) (p.target canvas)) 1 < 1 / 2 ∧
    axis.extent p.framing = 0

/-- Sides that are not negative take nothing away. -/
theorem framing_nonneg (hpadding : ∀ n ∈ p.padding.toList, 0 ≤ n) (axis : Axis) :
    0 ≤ axis.extent p.framing := by
  simp only [Sides.toList, List.mem_cons, List.not_mem_nil, or_false, forall_eq_or_imp,
    forall_eq] at hpadding
  obtain ⟨hleft, htop, hright, hbottom⟩ := hpadding
  rw [framing_eq]
  split
  · cases axis with
    | horizontal => exact Int.add_nonneg hleft hright
    | vertical => exact Int.add_nonneg htop hbottom
  · cases axis <;> exact le_rfl

theorem extent_padded (p : Params) (s : Size) (axis : Axis) :
    axis.extent (p.padded s) = axis.extent s + axis.extent p.framing := by
  rw [padded_eq]
  cases axis <;> rfl

/-- Without fitting in, the wanted extents and those of the source are kept, whatever the
    arithmetic. -/
theorem exists_resized (α : Type) [Scalar α] (hsource : (p.source natural).Positive)
    (hwanted : p.Sensible) (hfit : p.fitIn ≠ some true ∨ p.target canvas = (none, none)) :
    ∃ size, p.resized α natural canvas = .ok size ∧ size.Positive := by
  have hgetD : ∀ {o : Option Int} {d : Int}, (∀ n, o = some n → 0 < n) → 0 < d →
      0 < o.getD d := by
    intro o d ho hd
    cases o with
    | none => exact hd
    | some n => exact ho n rfl
  obtain ⟨hwidth, hheight⟩ := hwanted.target canvas
  by_cases hnone : p.target canvas = (none, none)
  · exact ⟨_, resized_of_no_target α p natural canvas hnone, hsource⟩
  · refine ⟨⟨(p.target canvas).1.getD _, (p.target canvas).2.getD _⟩, ?_,
      hgetD hwidth hsource.width, hgetD hheight hsource.height⟩
    have hfit' := hfit.resolve_right hnone
    unfold resized
    simp only [hfit', if_false]
    split
    · rename_i heq
      exact absurd heq hnone
    · rename_i heq
      rw [heq]

/-- What is left of an axis after the resize is not negative, and nothing only where fitting in
    rounds it away. -/
theorem extent_aimedSize (hsource : (p.source natural).Positive) (hwanted : p.Sensible)
    {before : Size} (hbefore : p.resized Rat natural canvas = .ok before) (axis : Axis) :
    0 ≤ axis.extent before ∧ (axis.extent before = 0 ↔ p.fitIn = some true ∧
      (axis.extent (p.source natural) : Rat) *
        min (aimScale (p.source natural) (p.target canvas)) 1 < 1 / 2) := by
  obtain ⟨hwidth, hheight⟩ := hwanted.target canvas
  by_cases hfit : p.fitIn = some true
  · have hscale := fitted_pos hsource hwidth hheight
    have hextent : (0 : Rat) < axis.extent (p.source natural) := by
      exact_mod_cast Size.positive_iff.mp hsource axis
    have heq : axis.extent before = ⌊(axis.extent (p.source natural) : Rat) *
        min (aimScale (p.source natural) (p.target canvas)) 1 + 1 / 2⌋ := by
      rw [resized_target canvas hsource, hfit] at hbefore
      obtain rfl := Except.ok.inj hbefore
      cases axis <;> rfl
    have hnonneg := round_nonneg (mul_pos hextent hscale).le
    refine ⟨heq ▸ hnonneg, ?_⟩
    rw [heq, ← not_le, ← round_pos_iff]
    constructor
    · intro h
      exact ⟨hfit, h.not_gt⟩
    · rintro ⟨-, h⟩
      exact le_antisymm (not_lt.mp h) hnonneg
  · obtain ⟨size, hsize, hpos⟩ := exists_resized Rat hsource hwanted (.inl hfit)
    obtain rfl := Except.ok.inj (hbefore.symm.trans hsize)
    have hpos' := Size.positive_iff.mp hpos axis
    exact ⟨hpos'.le, fun h => absurd h hpos'.ne', fun h => absurd h.1 hfit⟩

/-- What is known of the extents of the size that an image becomes. -/
structure Extents (p : Params) (natural : Size) (canvas : Option Size) (size : Size) : Prop where
  /-- Before it is turned, no extent is negative, and one is zero where its axis vanishes. -/
  upright : ∃ upright, size = p.turned upright ∧ ∀ axis : Axis, 0 ≤ axis.extent upright ∧
    (axis.extent upright = 0 ↔ p.Vanishes natural canvas axis)
  /-- Never both axes vanish. -/
  one_kept : ∃ axis, ¬ p.Vanishes natural canvas axis
  /-- None does of a source that is at most twice as long as wide. -/
  both_kept : (p.source natural).aspect ≤ 2 → ∀ axis, ¬ p.Vanishes natural canvas axis

theorem Extents.positive_iff {size : Size} (h : p.Extents natural canvas size) :
    size.Positive ↔ ∀ axis, ¬ p.Vanishes natural canvas axis := by
  obtain ⟨upright, rfl, hextents⟩ := h.upright
  rw [Size.positive_turned, Size.positive_iff]
  refine forall_congr' fun axis => ?_
  obtain ⟨hnonneg, hzero⟩ := hextents axis
  rw [← hzero]
  omega

/-- Where an axis vanishes, an extent is zero, as none is negative. -/
theorem Extents.zero_of_vanishes {size : Size} (h : p.Extents natural canvas size) {axis : Axis}
    (hvanishes : p.Vanishes natural canvas axis) : size.width = 0 ∨ size.height = 0 := by
  by_contra hextent
  obtain ⟨hwidth, hheight⟩ := not_or.mp hextent
  obtain ⟨upright, hturned, hextents⟩ := h.upright
  have hnonneg := (Size.forall_extent_turned p (0 ≤ ·)).mpr fun axis => (hextents axis).1
  rw [← hturned] at hnonneg
  refine h.positive_iff.mp ⟨?_, ?_⟩ axis hvanishes
  · exact lt_of_le_of_ne (hnonneg .horizontal) (Ne.symm hwidth)
  · exact lt_of_le_of_ne (hnonneg .vertical) (Ne.symm hheight)

/-- Without fitting in, or without a wanted size, an image has an extent on both axes. -/
theorem exists_output (α : Type) [Scalar α] (hsource : (p.source natural).Positive)
    (hwanted : p.Sensible) (hpadding : ∀ n ∈ p.padding.toList, 0 ≤ n)
    (hfit : p.fitIn ≠ some true ∨ p.target canvas = (none, none)) :
    ∃ size, p.output α natural canvas = .ok size ∧ size.Positive := by
  obtain ⟨before, hbefore, hpos⟩ := exists_resized α hsource hwanted hfit
  refine ⟨p.turned (p.padded before), ?_, ?_⟩
  · rw [output, hbefore]
    rfl
  · rw [Size.positive_turned, Size.positive_iff]
    intro axis
    rw [extent_padded]
    have hextent := Size.positive_iff.mp hpos axis
    have hframe := framing_nonneg hpadding axis
    omega

/-- With fitting in, it may lack one. -/
theorem exists_extents (canvas : Option Size) (hsource : (p.source natural).Positive)
    (hwanted : p.Sensible) (hpadding : ∀ n ∈ p.padding.toList, 0 ≤ n) :
    ∃ size, p.output Rat natural canvas = .ok size ∧ p.Extents natural canvas size := by
  obtain ⟨hwidth, hheight⟩ := hwanted.target canvas
  obtain ⟨before, hbefore⟩ := p.succeeds_resized natural canvas
  refine ⟨_, output_eq hbefore, ⟨_, rfl, fun axis => ?_⟩, ?_, fun haspect axis h => ?_⟩
  · obtain ⟨hnonneg, hzero⟩ := extent_aimedSize hsource hwanted hbefore axis
    have hframe := framing_nonneg hpadding axis
    rw [extent_padded, Vanishes, ← and_assoc, ← hzero]
    omega
  · obtain ⟨axis, hkept⟩ := exists_kept hsource hwidth hheight
    exact ⟨axis, fun h => by linarith [h.2.1]⟩
  · exact absurd h.2.1 (not_lt.mpr (hsource.half_le_fitted hwidth hheight haspect axis))

end Params

/-- **The extents of what an image becomes.**  Without fitting in, or without a wanted size, both
    are a pixel at least, whatever the arithmetic.  With it, an axis vanishes exactly if less than
    half a pixel is left of it and no padding is added; never both do, and none of a source that is
    at most twice as long as wide.  The scale of a preview is there, and never enlarges, exactly if
    no axis vanishes or the size is within the bounds; otherwise it divides by zero. -/
theorem State.output_extents (s : State) (natural b : Size) (canvas : Option Size)
    (hsource : (s.params.source natural).Positive) (hwanted : s.params.Sensible)
    (hpadding : ∀ n ∈ s.params.padding.toList, 0 ≤ n) (hbounds : b.Positive) :
    (∀ (α : Type) [Scalar α],
      s.params.fitIn ≠ some true ∨ s.params.target canvas = (none, none) →
        ∃ size, s.params.output α natural canvas = .ok size ∧ size.Positive) ∧
    ∃ size, s.params.output Rat natural canvas = .ok size ∧
      s.params.Extents natural canvas size ∧
      (size.Positive ↔ ∀ axis, ¬ s.params.Vanishes natural canvas axis) ∧
      ((size.Within b ∨ ∀ axis, ¬ s.params.Vanishes natural canvas axis) →
        ∃ k : Rat, s.previewScale natural canvas (some b) = .ok k ∧ 0 < k ∧ k ≤ 1) ∧
      (¬ size.Within b → (∃ axis, s.params.Vanishes natural canvas axis) →
        (s.previewScale natural canvas (some b) : Except Failure Rat) =
          .error (.arithmetic .divisionByZero)) := by
  refine ⟨fun α _ hfit => Params.exists_output α hsource hwanted hpadding hfit, ?_⟩
  obtain ⟨size, hsize, hextents⟩ := Params.exists_extents canvas hsource hwanted hpadding
  refine ⟨size, hsize, hextents, hextents.positive_iff, ?_, ?_⟩
  · rw [← hextents.positive_iff]
    intro hreach
    obtain ⟨k, hk, hpos, hle, -⟩ := exists_previewScale hsize hbounds hreach
    exact ⟨k, hk, hpos, hle⟩
  · rintro hout ⟨axis, hvanishes⟩
    rw [previewScale_eq hsize, if_neg (mt Size.within_iff.mpr hout),
      if_pos (hextents.zero_of_vanishes hvanishes)]

/-- Nothing but a width to be fitted into. -/
def thinned : State := ⟨{ width := some 10, fitIn := some true }, none⟩

/-- A wide image that is fitted into a small width has no height left, and no preview within bounds
    that are smaller still. -/
theorem output_extents_thinned :
    (thinned.params.source ⟨1000, 10⟩).Positive ∧ thinned.params.Sensible ∧
      (∀ n ∈ thinned.params.padding.toList, 0 ≤ n) ∧ Size.Positive ⟨5, 5⟩ ∧
      thinned.params.output Rat ⟨1000, 10⟩ none = .ok ⟨10, 0⟩ ∧
      (thinned.previewScale ⟨1000, 10⟩ none (some ⟨5, 5⟩) : Except Failure Rat) =
        .error (.arithmetic .divisionByZero) := by
  have hsource : (thinned.params.source ⟨1000, 10⟩).Positive := ⟨by decide, by decide⟩
  have hwanted : thinned.params.Sensible := by
    constructor
    · rintro n ⟨⟩
      decide
    · rintro n ⟨⟩
  have hpadding : ∀ n ∈ thinned.params.padding.toList, 0 ≤ n := by decide
  have hbounds : Size.Positive ⟨5, 5⟩ := ⟨by decide, by decide⟩
  obtain ⟨-, size, hsize, -, hpositive, -, hscale⟩ :=
    State.output_extents thinned ⟨1000, 10⟩ ⟨5, 5⟩ none hsource hwanted hpadding hbounds
  have hvalue : thinned.params.output Rat ⟨1000, 10⟩ none = .ok ⟨10, 0⟩ := by
    with_unfolding_all rfl
  obtain rfl := Except.ok.inj (hvalue.symm.trans hsize)
  refine ⟨hsource, hwanted, hpadding, hbounds, hsize, hscale (fun h => ?_) ?_⟩
  · exact absurd h.width (by decide)
  · by_contra hnone
    exact absurd (hpositive.mpr (not_exists.mp hnone)).height (by decide)

end Retouch
