/-
  Rendered sizes.

  Only fitting an image into a wanted size divides and rounds, so only then the size of what an
  image becomes can be missing, and only because the arithmetic has no answer
  (`Params.output_error`); without rounding there always is one (`Params.succeeds_output`).  Axes
  that follow a canvas can be resolved against it first: the size stays the same, and depends on no
  canvas any more (`Params.output_resolveFill`).
-/
import Mathlib.Data.Rat.Floor
import Retouch.Output
import Retouch.Proofs.Result

namespace Retouch

/-! ## Computations that only fail in arithmetic -/

/-- Whether a computation can only fail because its arithmetic has no answer. -/
def OnlyArithmetic {β : Type} (x : Except Failure β) : Prop :=
  ∀ f, x = .error f → ∃ fault, f = .arithmetic fault

namespace OnlyArithmetic

variable {β γ : Type}

theorem ok (b : β) : OnlyArithmetic (.ok b) := fun _ h => by cases h

theorem lift (x : Except Number.Fault β) : OnlyArithmetic (liftM x : Except Failure β) := by
  intro f h
  cases x with
  | ok b => cases h
  | error fault => exact ⟨fault, (Except.error.inj h).symm⟩

theorem bind {x : Except Failure β} {f : β → Except Failure γ} (hx : OnlyArithmetic x)
    (hf : ∀ b, OnlyArithmetic (f b)) : OnlyArithmetic (x >>= f) := by
  intro e h
  cases x with
  | ok b => exact hf b e h
  | error e' => exact hx e (by cases h; rfl)

theorem mapM_option {o : Option γ} {f : γ → Except Failure β} (hf : ∀ c, OnlyArithmetic (f c)) :
    OnlyArithmetic (o.mapM f) := by
  cases o with
  | none => exact ok none
  | some c => exact (hf c).bind fun b => ok (some b)

end OnlyArithmetic

variable {α : Type} [Scalar α]

theorem fitScale_onlyArithmetic (source : Size) (width height : Option Int) :
    OnlyArithmetic (fitScale α source width height) := by
  refine (OnlyArithmetic.mapM_option fun _ => .lift _).bind fun across => ?_
  exact (OnlyArithmetic.mapM_option fun _ => .lift _).bind fun down => .ok _

/-- The size of an image is missing only if it is fitted into a wanted size and the arithmetic of
    that has no answer. -/
theorem Params.output_error {p : Params} {natural : Size} {canvas : Option Size} {f : Failure}
    (h : p.output α natural canvas = .error f) :
    p.fitIn = some true ∧ ∃ fault, f = .arithmetic fault := by
  have hresized : p.resized α natural canvas = .error f := by
    unfold output at h
    obtain hr | ⟨size, -, hsize⟩ := of_bind_eq_error h
    · exact hr
    · cases hsize
  unfold resized at hresized
  extract_lets source at hresized
  clear_value source
  split at hresized
  · cases hresized
  · split at hresized
    · rename_i hfit
      refine ⟨hfit, ?_⟩
      split at hresized
      · cases hresized
      · revert hresized
        refine OnlyArithmetic.bind (fitScale_onlyArithmetic _ _ _) (fun scale => ?_) f
        exact (OnlyArithmetic.lift _).bind fun w => (OnlyArithmetic.lift _).bind fun h => .ok _
    · cases hresized

/-! ## Axes that follow the canvas -/

namespace Params

/-- Whether settings differ at most in the wanted size and in what does not matter to sizes. -/
structure SameFrame (p q : Params) : Prop where
  source : ∀ natural, p.source natural = q.source natural
  fitIn : p.fitIn = q.fitIn
  padded : ∀ s, p.padded s = q.padded s
  turned : ∀ s, p.turned s = q.turned s

section

variable (α : Type) [Scalar α] {p q : Params}

/-- The rendered size depends on the canvas below only by the wanted size. -/
theorem SameFrame.output_eq (h : p.SameFrame q) {natural : Size} {canvas canvas' : Option Size}
    (htarget : p.target canvas = q.target canvas') :
    p.output α natural canvas = q.output α natural canvas' := by
  unfold output resized
  simp only [h.source, h.fitIn, h.padded, h.turned, htarget]

theorem wanted_wanted (extent : Option Int) : wanted (wanted extent) = wanted extent := by
  cases extent with
  | none => rfl
  | some n => by_cases hn : n = 0 <;> simp [wanted, Option.filter, hn]

theorem wanted_filled (canvas inset : Int) :
    wanted (some (filled canvas inset)) = some (filled canvas inset) := by
  have hpos : filled canvas inset ≠ 0 := by
    unfold filled
    omega
  simp [wanted, Option.filter, hpos]

/-- A wanted size is no zero. -/
theorem wanted_target (p : Params) (canvas : Option Size) :
    wanted (p.target canvas).1 = (p.target canvas).1 ∧
      wanted (p.target canvas).2 = (p.target canvas).2 := by
  unfold target
  constructor
  · simp only
    split
    · exact wanted_filled _ _
    · exact wanted_wanted _
  · simp only
    split
    · exact wanted_filled _ _
    · exact wanted_wanted _

/-- An axis that does not follow the canvas has the size that is wanted of it. -/
theorem target_of_not_full (hwidth : p.widthFull ≠ some true) (hheight : p.heightFull ≠ some true)
    (canvas : Option Size) : p.target canvas = (wanted p.width, wanted p.height) := by
  unfold target
  refine Prod.ext ?_ ?_
  · simp only
    split
    · rename_i hfull
      exact absurd hfull hwidth
    · rfl
  · simp only
    split
    · rename_i hfull
      exact absurd hfull hheight
    · rfl

/-- Resolved axes follow no canvas any more. -/
theorem not_full_resolveFill (p : Params) (c : Size) :
    (p.resolveFill (some c)).widthFull ≠ some true ∧
      (p.resolveFill (some c)).heightFull ≠ some true := by
  have hnone : (none : Option Bool) ≠ some true := by decide
  unfold resolveFill
  split
  · exact ⟨hnone, hnone⟩
  · rename_i hfull
    exact not_or.mp fun h => hfull ⟨h, rfl⟩

/-- Axes that are resolved against a canvas want the same on any canvas. -/
theorem target_resolveFill (p : Params) (c : Size) (canvas : Option Size) :
    (p.resolveFill (some c)).target canvas = p.target (some c) := by
  obtain ⟨hwidth, hheight⟩ := p.not_full_resolveFill c
  rw [target_of_not_full hwidth hheight]
  unfold resolveFill
  split
  · exact Prod.ext (p.wanted_target (some c)).1 (p.wanted_target (some c)).2
  · rename_i hfull
    obtain ⟨hwidth, hheight⟩ := not_or.mp fun h => hfull ⟨h, rfl⟩
    rw [target_of_not_full hwidth hheight]

theorem width_resolveFill (c : Size) (h : p.widthFull = some true) :
    (p.resolveFill (some c)).width = some (filled c.width (p.widthFullOffset.getD 0)) := by
  rw [resolveFill, if_pos ⟨.inl h, rfl⟩]
  simp only [target, h]

theorem height_resolveFill (c : Size) (h : p.heightFull = some true) :
    (p.resolveFill (some c)).height = some (filled c.height (p.heightFullOffset.getD 0)) := by
  rw [resolveFill, if_pos ⟨.inr h, rfl⟩]
  simp only [target, h]

theorem sameFrame_resolveFill (p : Params) (canvas : Option Size) :
    (p.resolveFill canvas).SameFrame p := by
  unfold resolveFill
  split
  · exact ⟨fun _ => rfl, rfl, fun _ => rfl, fun _ => rfl⟩
  · exact ⟨fun _ => rfl, rfl, fun _ => rfl, fun _ => rfl⟩

/-- Settings with axes in pixels render to the same size as the settings on the canvas. -/
theorem output_resolveFill (p : Params) (natural c : Size) (canvas : Option Size) :
    (p.resolveFill (some c)).output α natural canvas = p.output α natural (some c) :=
  (p.sameFrame_resolveFill (some c)).output_eq α (p.target_resolveFill c canvas)

end

end Params

/-! ## Sizes without rounding -/

namespace Scalar

/-- On rationals a whole number is not changed by rounding it. -/
theorem scaleRound_one (n : Int) : scaleRound n (1 : Rat) = .ok n := by
  show Except.ok (⌊(n : Rat) * 1 + 1 / 2⌋) = Except.ok n
  congr 1
  rw [mul_one, Int.floor_eq_iff]
  constructor <;> linarith

end Scalar

theorem succeeds_scaleRound (n : Int) (s : Rat) : Succeeds (Scalar.scaleRound n s) := ⟨_, rfl⟩

/-- An image that is fitted into its own size is not scaled. -/
theorem fitScale_self {s : Size} (hwidth : 0 < s.width) (hheight : 0 < s.height) :
    fitScale Rat s (some s.width) (some s.height) = .ok 1 := by
  have hquotient : ∀ n : Int, 0 < n →
      (Scalar.quotient n n : Except Number.Fault Rat) = .ok 1 := by
    intro n hn
    show (if n = 0 then _ else Except.ok ((n : Rat) / n)) = _
    rw [if_neg (by omega), div_self (by exact_mod_cast (by omega : n ≠ 0))]
  have hmin : Scalar.min (1 : Rat) 1 = 1 := by decide
  unfold fitScale
  simp only [Option.mapM_some, hquotient _ hwidth, hquotient _ hheight]
  show Except.ok (Scalar.min (Scalar.min (1 : Rat) 1) 1) = _
  rw [hmin, hmin]

theorem succeeds_fitScale {s : Size} (hwidth : 0 < s.width) (hheight : 0 < s.height)
    (width height : Option Int) : Succeeds (fitScale Rat s width height) := by
  have hquotient : ∀ m n : Int, 0 < n →
      Succeeds (Scalar.quotient m n : Except Number.Fault Rat) := by
    intro m n hn
    show Succeeds (if n = 0 then _ else _)
    rw [if_neg (by omega)]
    exact .ok _
  refine (Succeeds.mapM_option fun w _ => (hquotient w _ hwidth).lift).bind fun across => ?_
  refine (Succeeds.mapM_option fun h _ => (hquotient h _ hheight).lift).bind fun down => ?_
  exact .ok _

namespace Params

variable {p : Params} {natural : Size} {canvas : Option Size}

theorem succeeds_resized (p : Params) (natural : Size) (canvas : Option Size) :
    Succeeds (p.resized Rat natural canvas) := by
  unfold resized
  simp only
  split
  · exact .ok _
  · split
    · split
      · exact .ok _
      · rename_i hpos
        refine (succeeds_fitScale (by omega) (by omega) _ _).bind fun scale => ?_
        exact (succeeds_scaleRound _ _).lift.bind fun _ =>
          (succeeds_scaleRound _ _).lift.bind fun _ => .ok _
    · exact .ok _

/-- Every image has a rendered size, if it is computed without rounding. -/
theorem succeeds_output (p : Params) (natural : Size) (canvas : Option Size) :
    Succeeds (p.output Rat natural canvas) :=
  (succeeds_resized p natural canvas).bind fun _ => .ok _

/-- An image that is to get the size that it has keeps it. -/
theorem resized_source (htarget : p.target canvas =
    (wanted (some (p.source natural).width), wanted (some (p.source natural).height))) :
    p.resized Rat natural canvas = .ok (p.source natural) := by
  obtain ⟨s, hs⟩ : ∃ s, p.source natural = s := ⟨_, rfl⟩
  rw [hs] at htarget ⊢
  have hwanted : ∀ n : Int, (wanted (some n)).getD n = n := by
    intro n
    by_cases hn : n = 0 <;> simp [wanted, Option.filter, hn]
  unfold resized
  simp only [hs, htarget]
  split
  · rfl
  · rename_i width height _ heq
    obtain ⟨rfl, rfl⟩ := Prod.mk.inj heq
    split
    · split
      · rfl
      · rename_i hpos
        obtain ⟨hwidth, hheight⟩ : 0 < s.width ∧ 0 < s.height := by omega
        have hw : wanted (some s.width) = some s.width := by
          simp [wanted, Option.filter, hwidth.ne']
        have hh : wanted (some s.height) = some s.height := by
          simp [wanted, Option.filter, hheight.ne']
        rw [hw, hh, fitScale_self hwidth hheight]
        show (do
          let width ← (liftM (Scalar.scaleRound s.width (1 : Rat)) : Except Failure Int)
          let height ← (liftM (Scalar.scaleRound s.height (1 : Rat)) : Except Failure Int)
          return Size.mk width height) = _
        rw [Scalar.scaleRound_one, Scalar.scaleRound_one]
        rfl
    · rw [hwanted, hwanted]

end Params

end Retouch
