/-
  Snapping what has been snapped.

  The coordinate of an extent lies in one of four zones (`snapAxis_cases`).  What is snapped to an
  edge touches that edge, so it is snapped there again, and what is not snapped is left again.
  Only the middle can lose what was snapped to it: edges win over the middle, and if the centered
  extent itself is near to the edges (`SnapRange.Covers`), then it is snapped to the first of
  them.  From the second snap on nothing changes any more (`snapAxis_settles`).
-/
import Mathlib.Algebra.Order.Field.Basic
import Mathlib.Algebra.Order.Ring.Rat
import Mathlib.Tactic.Ring
import Retouch.Geometry.Snap

namespace Retouch

theorem Scalar.abs_eq (x : Rat) : Scalar.abs x = |x| := by
  unfold Scalar.abs
  split
  case isTrue hx => exact (abs_of_neg hx).symm
  case isFalse hx => exact (abs_of_nonneg (not_lt.mp hx)).symm

/-! ## The zones of an axis -/

/-- The edges draw in an extent from the middle of the canvas. -/
def SnapRange.Covers (range : SnapRange Rat) (extent canvas : Rat) : Prop :=
  |canvas - extent| / 2 < range.edge

instance (range : SnapRange Rat) (extent canvas : Rat) : Decidable (range.Covers extent canvas) :=
  inferInstanceAs (Decidable (|canvas - extent| / 2 < range.edge))

/-- How near a coordinate is to what has drawn it: nearer than the threshold to an edge, nearer
than the percentage of the canvas to the middle. -/
def SnapRange.Within (range : SnapRange Rat) (canvas distance : Rat) : Option SnapTarget → Prop
  | some .start => distance < range.edge
  | some .finish => distance < range.edge
  | some .center => distance < canvas * range.center / 100
  | none => distance = 0

section

variable {range : SnapRange Rat} {position extent canvas : Rat}

theorem snapAxis_start (hnear : |position| < range.edge)
    (hfirst : |position| ≤ |position + extent - canvas|) :
    snapAxis range position extent canvas = (0, some .start) := by
  simp only [snapAxis, Scalar.abs_eq]
  rw [if_pos (.inl hnear), if_pos hfirst]

/-- An axis is snapped to the nearer edge, else to the middle, else not at all. -/
theorem snapAxis_cases (range : SnapRange Rat) (position extent canvas : Rat) :
    (|position| < range.edge ∧ snapAxis range position extent canvas = (0, some .start)) ∨
    (|position + extent - canvas| < range.edge ∧ |position + extent - canvas| < |position| ∧
      snapAxis range position extent canvas = (canvas - extent, some .finish)) ∨
    (|position + extent / 2 - canvas / 2| < canvas * range.center / 100 ∧
      snapAxis range position extent canvas = ((canvas - extent) / 2, some .center)) ∨
    snapAxis range position extent canvas = (position, none) := by
  have hhalf : ∀ x : Rat, x * Scalar.half = x / 2 := fun x => by
    show x * (1 / 2) = x / 2
    ring
  simp only [snapAxis, Scalar.abs_eq, hhalf]
  by_cases hedge : |position| < range.edge ∨ |position + extent - canvas| < range.edge
  · rw [if_pos hedge]
    by_cases hfirst : |position| ≤ |position + extent - canvas|
    · rw [if_pos hfirst]
      exact .inl ⟨hedge.elim id (lt_of_le_of_lt hfirst), rfl⟩
    · have hlast : |position + extent - canvas| < |position| := not_le.mp hfirst
      rw [if_neg hfirst]
      exact .inr (.inl ⟨hedge.elim (lt_trans hlast) id, hlast, rfl⟩)
  · rw [if_neg hedge]
    by_cases hmiddle : |position + extent / 2 - canvas / 2| < canvas * range.center / 100
    · rw [if_pos hmiddle]
      exact .inr (.inr (.inl ⟨hmiddle, rfl⟩))
    · rw [if_neg hmiddle]
      exact .inr (.inr (.inr rfl))

/-- A snap moves a coordinate by less than the distance that its target draws from. -/
theorem snapAxis_within (range : SnapRange Rat) (position extent canvas : Rat) :
    range.Within canvas |(snapAxis range position extent canvas).1 - position|
      (snapAxis range position extent canvas).2 := by
  rcases snapAxis_cases range position extent canvas with
    ⟨hnear, h⟩ | ⟨hnear, -, h⟩ | ⟨hnear, h⟩ | h <;> rw [h]
  · show |0 - position| < range.edge
    rwa [zero_sub, abs_neg]
  · show |canvas - extent - position| < range.edge
    rwa [abs_sub_comm, show position - (canvas - extent) = position + extent - canvas by ring]
  · show |(canvas - extent) / 2 - position| < canvas * range.center / 100
    rwa [abs_sub_comm,
      show position - (canvas - extent) / 2 = position + extent / 2 - canvas / 2 by ring]
  · show |position - position| = 0
    rw [sub_self, abs_zero]

/-! ## Snapping again -/

theorem snapAxis_again_start (hedge : 0 < range.edge) :
    snapAxis range 0 extent canvas = (0, some .start) :=
  snapAxis_start (by rwa [abs_zero]) (by rw [abs_zero]; exact abs_nonneg _)

/-- The extent that touches the last edge stays there, if it does not touch the first as well. -/
theorem snapAxis_again_finish (hedge : 0 < range.edge) (hne : canvas ≠ extent) :
    snapAxis range (canvas - extent) extent canvas = (canvas - extent, some .finish) := by
  have hfirst : 0 < |canvas - extent| := abs_pos.mpr (sub_ne_zero.mpr hne)
  simp only [snapAxis, Scalar.abs_eq, sub_add_cancel, sub_self, abs_zero]
  rw [if_pos (.inr hedge), if_neg (not_le.mpr hfirst)]

/-- The centered extent is as far from the one edge as from the other. -/
theorem snapAxis_again_center (hcenter : 0 < canvas * range.center / 100) :
    snapAxis range ((canvas - extent) / 2) extent canvas =
      if range.Covers extent canvas then (0, some .start)
      else ((canvas - extent) / 2, some .center) := by
  have hfirst : |(canvas - extent) / 2| = |canvas - extent| / 2 := by
    rw [abs_div, abs_of_pos (two_pos : (0 : Rat) < 2)]
  have hlast : |(canvas - extent) / 2 + extent - canvas| = |canvas - extent| / 2 := by
    rw [show (canvas - extent) / 2 + extent - canvas = -((canvas - extent) / 2) by ring, abs_neg,
      hfirst]
  have hmiddle : (canvas - extent) * Scalar.half + extent * Scalar.half - canvas * Scalar.half =
      0 := by
    show (canvas - extent) * (1 / 2) + extent * (1 / 2) - canvas * (1 / 2) = 0
    ring
  by_cases hcovers : range.Covers extent canvas
  · rw [if_pos hcovers]
    exact snapAxis_start (hfirst ▸ hcovers) (hfirst.trans hlast.symm).le
  · have hhalf : (canvas - extent) / 2 = (canvas - extent) * Scalar.half := by
      show (canvas - extent) / 2 = (canvas - extent) * (1 / 2)
      ring
    have hedge : ¬ (|(canvas - extent) / 2| < range.edge ∨
        |(canvas - extent) / 2 + extent - canvas| < range.edge) := by
      rw [hfirst, hlast, or_self]
      exact hcovers
    rw [if_neg hcovers]
    simp only [snapAxis, Scalar.abs_eq]
    rw [if_neg hedge, hhalf, hmiddle, abs_zero, if_pos hcenter]

/-- Snapping a snapped coordinate changes it, or its target, only if it was snapped to the middle
of a canvas that the edges cover. -/
theorem snapAxis_again (range : SnapRange Rat) (position extent canvas : Rat) :
    snapAxis range (snapAxis range position extent canvas).1 extent canvas =
      if (snapAxis range position extent canvas).2 = some .center ∧ range.Covers extent canvas then
        (0, some .start)
      else snapAxis range position extent canvas := by
  have hpositive {x d : Rat} (h : |x| < d) : 0 < d := (abs_nonneg x).trans_lt h
  rcases snapAxis_cases range position extent canvas with
    ⟨hnear, h⟩ | ⟨hnear, hlast, h⟩ | ⟨hnear, h⟩ | h
  · rw [h, if_neg (by rintro ⟨⟨⟩, -⟩)]
    exact snapAxis_again_start (hpositive hnear)
  · -- An extent as wide as the canvas touches both edges, and the first edge has it.
    have hne : canvas ≠ extent := by
      rintro rfl
      rw [add_sub_cancel_right] at hlast
      exact lt_irrefl _ hlast
    rw [h, if_neg (by rintro ⟨⟨⟩, -⟩)]
    exact snapAxis_again_finish (hpositive hnear) hne
  · rw [h]
    simp only [true_and]
    exact snapAxis_again_center (hpositive hnear)
  · rw [h, if_neg (by rintro ⟨⟨⟩, -⟩)]
    exact h

end

/-! ## Snapping on and on -/

/-- Snaps an extent, and what came of it again a number of times. -/
def resnapAxis (range : SnapRange Rat) (position extent canvas : Rat) :
    Nat → Rat × Option SnapTarget
  | 0 => snapAxis range position extent canvas
  | times + 1 =>
    snapAxis range (resnapAxis range position extent canvas times).1 extent canvas

/-- An extent that is snapped again and again stays at what it was snapped to first, within the
distance that its target draws from.  Only if it was snapped to the middle, and lies nearer to the
edges there than their threshold, is it snapped to the first edge by the second snap, and stays
there. -/
theorem snapAxis_settles (range : SnapRange Rat) (position extent canvas : Rat) :
    range.Within canvas |(snapAxis range position extent canvas).1 - position|
      (snapAxis range position extent canvas).2 ∧
    ∀ times, resnapAxis range position extent canvas (times + 1) =
      if (snapAxis range position extent canvas).2 = some .center ∧ range.Covers extent canvas then
        (0, some .start)
      else snapAxis range position extent canvas := by
  refine ⟨snapAxis_within range position extent canvas, fun times => ?_⟩
  induction times with
  | zero => exact snapAxis_again range position extent canvas
  | succ times ih =>
    rw [resnapAxis, ih]
    split
    case isTrue h =>
      have hedge : 0 < range.edge :=
        (div_nonneg (abs_nonneg (canvas - extent)) two_pos.le).trans_lt h.2
      exact snapAxis_again_start hedge
    case isFalse h => rw [snapAxis_again, if_neg h]

/-- An extent that nearly fills a canvas of 2000 pixels: the middle draws it from 30 to 5, and from
there the edge draws it to 0. -/
theorem snapAxis_center_lost :
    (0 : Rat) < 1990 ∧ (0 : Rat) < 2000 ∧ (0 : Rat) < 8 ∧ (0 : Rat) ≤ 2 ∧
    snapAxis ⟨8, 2⟩ (30 : Rat) 1990 2000 = (5, some .center) ∧
    snapAxis ⟨8, 2⟩ (5 : Rat) 1990 2000 = (0, some .start) := by
  refine ⟨by decide, by decide, by decide, by decide, ?_, ?_⟩ <;> decide +kernel

end Retouch
