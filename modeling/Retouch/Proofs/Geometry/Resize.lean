/-
  What a resize keeps.

  A rectangle that is resized goes through stages: it is pulled by the pointer, brought to its
  ratio, snapped on either axis, brought to the ratio again and raised to the minimum.  Every stage
  keeps the edges opposite the handle (`Held`), and from the first time that the ratio is kept
  only snapping gives it up, which is followed by keeping it again (`InRatio`).  The minimum comes
  last: raising one extent never brings the other below it.  So all of that holds of the result
  (`Handle.resize_keeps`), and an edge that snapped last stays on the canvas edge unless the
  minimum moved it.
-/
import Mathlib.Algebra.Order.Field.Basic
import Mathlib.Algebra.Order.Ring.Rat
import Mathlib.Tactic.FieldSimp
import Mathlib.Tactic.Linarith
import Mathlib.Tactic.Ring
import Retouch.Geometry.Resize

namespace Retouch

/-! ## The edges of a handle -/

namespace Handle

/-- Whether the right edge is opposite the handle.  The top handle changes the width under a ratio,
and keeps the right edge then. -/
def holdsRight (h : Handle) : Bool := h.movesLeft || h == .n

/-- The horizontal coordinate of the edge that the handle moves. -/
def edgeAcross (h : Handle) (r : Rect Rat) : Rat := if h.movesRight then r.right else r.x

/-- The vertical coordinate of the edge that the handle moves. -/
def edgeDown (h : Handle) (r : Rect Rat) : Rat := if h.movesBottom then r.bottom else r.y

theorem holdsRight_of_movesLeft {h : Handle} (hh : h.movesLeft = true) : h.holdsRight = true := by
  rw [holdsRight, hh, Bool.true_or]

theorem holdsRight_of_movesRight {h : Handle} (hh : h.movesRight = true) :
    h.holdsRight = false := by
  cases h <;> first | rfl | cases hh

/-- The handle at the same place after the axes are exchanged. -/
def flip : Handle → Handle
  | .n => .w
  | .ne => .sw
  | .e => .s
  | .se => .se
  | .s => .e
  | .sw => .ne
  | .w => .n
  | .nw => .nw

end Handle

namespace Rect

theorem right_eq (r : Rect Rat) : r.right = r.x + r.width := rfl

/-- The rectangle with the axes exchanged. -/
def flip (r : Rect Rat) : Rect Rat := ⟨r.y, r.x, r.height, r.width⟩

end Rect

theorem Handle.edgeAcross_flip (h : Handle) (r : Rect Rat) :
    h.flip.edgeAcross r.flip = h.edgeDown r := by
  cases h <;> rfl

/-! ## What the stages keep -/

/-- Of the left and the right edge of `start`, the one opposite the handle is an edge of `r`. -/
structure HeldAcross (h : Handle) (start r : Rect Rat) : Prop where
  right : h.holdsRight = true → r.right = start.right
  left : h.holdsRight = false → r.x = start.x

/-- The edges of `start` that are opposite the handle are edges of `r`. -/
structure Held (h : Handle) (start r : Rect Rat) : Prop where
  across : HeldAcross h start r
  down : HeldAcross h.flip start.flip r.flip

/-- The width is the height times the ratio, if one is kept. -/
def InRatio (ratio : Option Rat) (r : Rect Rat) : Prop := ∀ a ∈ ratio, r.width = a * r.height

variable {h : Handle} {start r r' : Rect Rat} {ratio : Option Rat} {threshold least : Rat}

theorem HeldAcross.congr (hr : HeldAcross h start r) (hx : r'.x = r.x)
    (hwidth : r'.width = r.width) : HeldAcross h start r' := by
  refine ⟨fun hh => ?_, fun hh => hx.trans (hr.left hh)⟩
  rw [Rect.right_eq, hx, hwidth]
  exact hr.right hh

theorem HeldAcross.pull (h : Handle) (start : Rect Rat) (dx dy : Rat) :
    HeldAcross h start (h.pull start dx dy) := by
  have hfar : start.x + dx + (start.width - dx) = start.x + start.width := by ring
  cases h with
  | n => exact ⟨fun _ => rfl, nofun⟩
  | sw | w | nw => exact ⟨fun _ => hfar, nofun⟩
  | ne | e | se | s => exact ⟨nofun, fun _ => rfl⟩

theorem Handle.pull_flip (h : Handle) (start : Rect Rat) (dx dy : Rat) :
    (h.pull start dx dy).flip = h.flip.pull start.flip dy dx := by
  cases h <;> rfl

theorem Held.pull (h : Handle) (start : Rect Rat) (dx dy : Rat) :
    Held h start (h.pull start dx dy) :=
  ⟨HeldAcross.pull h start dx dy, h.pull_flip start dx dy ▸ HeldAcross.pull h.flip start.flip dy dx⟩

/-! ### Anchoring -/

theorem Handle.anchor_flip (h : Handle) (start r : Rect Rat) :
    (h.anchor start r).flip = h.flip.anchor start.flip r.flip := by
  cases h <;> rfl

/-- A rectangle may get any width, if the handle anchors it afterwards. -/
theorem HeldAcross.anchor (hleft : h.holdsRight = false → r.x = start.x) :
    HeldAcross h start (h.anchor start r) := by
  refine ⟨fun hh => ?_, fun hh => ?_⟩
  · show (if h.holdsRight then start.right - r.width else r.x) + r.width = start.right
    rw [if_pos hh]
    ring
  · show (if h.holdsRight then start.right - r.width else r.x) = start.x
    rw [if_neg (Bool.eq_false_iff.mp hh)]
    exact hleft hh

theorem Held.anchor (hr : Held h start r) (width height : Rat) :
    Held h start (h.anchor start { r with width, height }) := by
  refine ⟨HeldAcross.anchor hr.across.left, ?_⟩
  rw [h.anchor_flip]
  exact HeldAcross.anchor hr.down.left

/-- A rectangle whose edge is held keeps its corner when it is anchored once more. -/
theorem HeldAcross.anchor_x (hr : HeldAcross h start r) : (h.anchor start r).x = r.x := by
  show (if h.holdsRight then start.right - r.width else r.x) = r.x
  split
  · rename_i hh
    rw [← hr.right hh, r.right_eq]
    ring
  · rfl

theorem HeldAcross.edgeAcross_anchor (hr : HeldAcross h start r) :
    h.edgeAcross (h.anchor start r) = h.edgeAcross r := by
  have hx := hr.anchor_x
  unfold Handle.edgeAcross
  rw [Rect.right_eq, hx]
  rfl

/-! ### The ratio -/

theorem Held.conform (hr : Held h start r) (ratio : Option Rat) (d : Drive) :
    Held h start (h.conform start ratio d r) := by
  cases ratio with
  | none => exact hr
  | some a => exact hr.anchor ..

theorem inRatio_conform (hratio : ∀ a ∈ ratio, 0 < a) (d : Drive) (r : Rect Rat) :
    InRatio ratio (h.conform start ratio d r) := by
  intro a ha
  have ha0 : a ≠ 0 := (hratio a ha).ne'
  cases ha
  cases d with
  | width => exact (mul_div_cancel₀ r.width ha0).symm
  | height => exact mul_comm r.height a

/-- When a rectangle is brought to its ratio, the extent that drives stays, and with it the edge
that the handle moves. -/
theorem Held.edgeAcross_conform (hr : Held h start r) {d : Drive}
    (hd : ratio = none ∨ d = .width) :
    h.edgeAcross (h.conform start ratio d r) = h.edgeAcross r := by
  cases ratio with
  | none => rfl
  | some a =>
      obtain rfl := hd.resolve_left nofun
      have hheld : HeldAcross h start { r with height := r.width / a } := hr.across.congr rfl rfl
      exact hheld.edgeAcross_anchor

theorem Held.edgeDown_conform (hr : Held h start r) {d : Drive}
    (hd : ratio = none ∨ d = .height) :
    h.edgeDown (h.conform start ratio d r) = h.edgeDown r := by
  cases ratio with
  | none => rfl
  | some a =>
      obtain rfl := hd.resolve_left nofun
      have hheld : HeldAcross h.flip start.flip { r.flip with height := r.height * a } :=
        hr.down.congr rfl rfl
      have hedge := hheld.edgeAcross_anchor
      rw [← h.edgeAcross_flip, ← h.edgeAcross_flip]
      exact (congrArg h.flip.edgeAcross (h.anchor_flip ..)).trans hedge

/-! ### Snapping -/

/-- Whether a coordinate is on an edge of a canvas of some extent. -/
def OnCanvasEdge (canvas : Option Rat) (coordinate : Rat) : Prop :=
  ∃ c ∈ canvas, coordinate = 0 ∨ coordinate = c

/-- An edge stays where it is, or goes to an edge of the canvas. -/
theorem snapEdge_cases (threshold value canvas : Rat) :
    snapEdge threshold value canvas = (value, false) ∨
      snapEdge threshold value canvas = (0, true) ∨
        snapEdge threshold value canvas = (canvas, true) := by
  unfold snapEdge
  simp only
  split_ifs
  · exact .inr (.inl rfl)
  · exact .inr (.inr rfl)
  · exact .inl rfl

theorem onCanvasEdge_snapEdge {value c : Rat} (hsnap : (snapEdge threshold value c).2 = true) :
    OnCanvasEdge (some c) (snapEdge threshold value c).1 := by
  rcases snapEdge_cases threshold value c with e | e | e
  · rw [e] at hsnap
    cases hsnap
  · rw [e]
    exact ⟨c, rfl, .inl rfl⟩
  · rw [e]
    exact ⟨c, rfl, .inr rfl⟩

theorem snapEdge_of_not_snapped {value c : Rat} (hsnap : (snapEdge threshold value c).2 = false) :
    (snapEdge threshold value c).1 = value := by
  rcases snapEdge_cases threshold value c with e | e | e
  · rw [e]
  · rw [e] at hsnap
    cases hsnap
  · rw [e] at hsnap
    cases hsnap

namespace Handle

variable {canvas : Option Rat}

/-- What snapping on the horizontal axis does: the right edge moves, the left edge moves, or
nothing does. -/
theorem snapAcross_cases (h : Handle) (threshold : Rat) (canvas : Option Rat) (r : Rect Rat) :
    (∃ c, canvas = some c ∧ h.movesRight = true ∧ h.snapAcross threshold canvas r =
        ({ r with width := (snapEdge threshold r.right c).1 - r.x },
          (snapEdge threshold r.right c).2)) ∨
      (∃ c, canvas = some c ∧ h.movesRight = false ∧ h.movesLeft = true ∧
        h.snapAcross threshold canvas r =
          ({ r with
              x := (snapEdge threshold r.x c).1
              width := r.right - (snapEdge threshold r.x c).1 },
            (snapEdge threshold r.x c).2)) ∨
      h.snapAcross threshold canvas r = (r, false) := by
  cases canvas with
  | none => exact .inr (.inr rfl)
  | some c =>
      unfold snapAcross
      simp only
      split
      · exact .inl ⟨c, rfl, ‹_›, rfl⟩
      · split
        · exact .inr (.inl ⟨c, rfl, Bool.eq_false_iff.mpr ‹_›, ‹_›, rfl⟩)
        · exact .inr (.inr rfl)

/-- The vertical axis snaps as the horizontal one does with the axes exchanged. -/
theorem snapDown_eq (h : Handle) (threshold : Rat) (canvas : Option Rat) (r : Rect Rat) :
    h.snapDown threshold canvas r =
      ((h.flip.snapAcross threshold canvas r.flip).1.flip,
        (h.flip.snapAcross threshold canvas r.flip).2) := by
  cases canvas with
  | none => rfl
  | some c => cases h <;> rfl

/-- Snapping leaves the other axis. -/
theorem snapAcross_y (h : Handle) (threshold : Rat) (canvas : Option Rat) (r : Rect Rat) :
    (h.snapAcross threshold canvas r).1.y = r.y ∧
      (h.snapAcross threshold canvas r).1.height = r.height := by
  rcases h.snapAcross_cases threshold canvas r with ⟨c, -, -, e⟩ | ⟨c, -, -, -, e⟩ | e <;>
    rw [e] <;> exact ⟨rfl, rfl⟩

/-- A rectangle that did not snap is the same. -/
theorem snapAcross_of_not_snapped (hsnap : (h.snapAcross threshold canvas r).2 = false) :
    (h.snapAcross threshold canvas r).1 = r := by
  have hwidth : r.right - r.x = r.width := by
    rw [Rect.right_eq]
    ring
  rcases h.snapAcross_cases threshold canvas r with ⟨c, -, -, e⟩ | ⟨c, -, -, -, e⟩ | e
  · rw [e] at hsnap ⊢
    rw [snapEdge_of_not_snapped hsnap, hwidth]
  · rw [e] at hsnap ⊢
    rw [snapEdge_of_not_snapped hsnap, hwidth]
  · rw [e]

theorem snapDown_of_not_snapped (hsnap : (h.snapDown threshold canvas r).2 = false) :
    (h.snapDown threshold canvas r).1 = r := by
  rw [h.snapDown_eq] at hsnap ⊢
  exact congrArg Rect.flip (snapAcross_of_not_snapped hsnap)

/-- The edge that snapped is on an edge of the canvas. -/
theorem edgeAcross_snapAcross (hsnap : (h.snapAcross threshold canvas r).2 = true) :
    OnCanvasEdge canvas (h.edgeAcross (h.snapAcross threshold canvas r).1) := by
  rcases h.snapAcross_cases threshold canvas r with
    ⟨c, rfl, hright, e⟩ | ⟨c, rfl, hright, -, e⟩ | e
  · rw [e] at hsnap ⊢
    rw [edgeAcross, if_pos hright, Rect.right_eq, add_sub_cancel]
    exact onCanvasEdge_snapEdge hsnap
  · rw [e] at hsnap ⊢
    rw [edgeAcross, if_neg (Bool.eq_false_iff.mp hright)]
    exact onCanvasEdge_snapEdge hsnap
  · rw [e] at hsnap
    cases hsnap

theorem edgeDown_snapDown (hsnap : (h.snapDown threshold canvas r).2 = true) :
    OnCanvasEdge canvas (h.edgeDown (h.snapDown threshold canvas r).1) := by
  rw [h.snapDown_eq] at hsnap ⊢
  rw [← h.edgeAcross_flip]
  exact edgeAcross_snapAcross hsnap

theorem edgeAcross_snapDown (h : Handle) (threshold : Rat) (canvas : Option Rat) (r : Rect Rat) :
    h.edgeAcross (h.snapDown threshold canvas r).1 = h.edgeAcross r := by
  obtain ⟨hx, hwidth⟩ := h.flip.snapAcross_y threshold canvas r.flip
  have hx : (h.snapDown threshold canvas r).1.x = r.x := by
    rw [h.snapDown_eq]
    exact hx
  have hwidth : (h.snapDown threshold canvas r).1.width = r.width := by
    rw [h.snapDown_eq]
    exact hwidth
  unfold edgeAcross
  rw [Rect.right_eq, Rect.right_eq, hx, hwidth]

end Handle

theorem HeldAcross.snapAcross (hr : HeldAcross h start r) (threshold : Rat)
    (canvas : Option Rat) : HeldAcross h start (h.snapAcross threshold canvas r).1 := by
  rcases h.snapAcross_cases threshold canvas r with ⟨c, -, hright, e⟩ | ⟨c, -, -, hleft, e⟩ | e
  · rw [e]
    refine ⟨fun hh => ?_, hr.left⟩
    rw [Handle.holdsRight_of_movesRight hright] at hh
    cases hh
  · rw [e]
    refine ⟨fun hh => ?_, fun hh => ?_⟩
    · refine Eq.trans ?_ (hr.right hh)
      rw [Rect.right_eq]
      ring
    · rw [Handle.holdsRight_of_movesLeft hleft] at hh
      cases hh
  · rw [e]
    exact hr

theorem Held.snapAcross (hr : Held h start r) (threshold : Rat) (canvas : Option Rat) :
    Held h start (h.snapAcross threshold canvas r).1 := by
  obtain ⟨hy, hheight⟩ := h.snapAcross_y threshold canvas r
  exact ⟨hr.across.snapAcross threshold canvas, hr.down.congr hy hheight⟩

theorem Held.snapDown (hr : Held h start r) (threshold : Rat) (canvas : Option Rat) :
    Held h start (h.snapDown threshold canvas r).1 := by
  obtain ⟨hx, hwidth⟩ := h.flip.snapAcross_y threshold canvas r.flip
  rw [h.snapDown_eq]
  exact ⟨hr.across.congr hx hwidth, hr.down.snapAcross threshold canvas⟩

/-! ### The minimum -/

theorem Held.widen (hr : Held h start r) (ratio : Option Rat) (least : Rat) :
    Held h start (h.widen start ratio least r) := by
  unfold Handle.widen
  split
  · exact hr.anchor ..
  · exact hr

theorem Held.heighten (hr : Held h start r) (ratio : Option Rat) (least : Rat) :
    Held h start (h.heighten start ratio least r) := by
  unfold Handle.heighten
  split
  · exact hr.anchor ..
  · exact hr

theorem InRatio.widen (hratio : ∀ a ∈ ratio, 0 < a) (hr : InRatio ratio r) (least : Rat) :
    InRatio ratio (h.widen start ratio least r) := by
  unfold Handle.widen
  split
  · intro a ha
    have ha0 : a ≠ 0 := (hratio a ha).ne'
    cases ha
    exact (mul_div_cancel₀ least ha0).symm
  · exact hr

theorem InRatio.heighten (hr : InRatio ratio r) (least : Rat) :
    InRatio ratio (h.heighten start ratio least r) := by
  unfold Handle.heighten
  split
  · intro a ha
    cases ha
    exact mul_comm least a
  · exact hr

theorem Handle.le_widen (h : Handle) (start : Rect Rat) (ratio : Option Rat) (least : Rat)
    (r : Rect Rat) : least ≤ (h.widen start ratio least r).width := by
  unfold widen
  split
  · exact le_refl least
  · exact not_lt.mp ‹_›

theorem Handle.le_heighten (h : Handle) (start : Rect Rat) (ratio : Option Rat) (least : Rat)
    (r : Rect Rat) : least ≤ (h.heighten start ratio least r).height := by
  unfold heighten
  split
  · exact le_refl least
  · exact not_lt.mp ‹_›

/-- Raising the height raises the width under a ratio, and leaves it otherwise. -/
theorem Handle.width_le_heighten (hratio : ∀ a ∈ ratio, 0 < a) (hr : InRatio ratio r)
    (least : Rat) : r.width ≤ (h.heighten start ratio least r).width := by
  unfold heighten
  split
  · rename_i hlow
    have hlow : r.height < least := hlow
    cases ratio with
    | none => exact le_refl r.width
    | some a =>
        show r.width ≤ least * a
        calc r.width = a * r.height := hr a rfl
          _ ≤ a * least := mul_le_mul_of_nonneg_left hlow.le (hratio a rfl).le
          _ = least * a := mul_comm a least
  · exact le_refl r.width

/-! ## The stages of a resize -/

namespace Handle

variable (h : Handle) (start : Rect Rat) (dx dy : Rat) (b : ResizeBounds Rat)

/-- The extent that drives before anything snaps. -/
def firstDrive : Drive :=
  h.drive start (h.pull start dx dy).width (h.pull start dx dy).height

/-- The rectangle before anything snaps. -/
def proportioned : Rect Rat :=
  h.conform start b.ratio (h.firstDrive start dx dy) (h.pull start dx dy)

/-- The rectangle after its horizontal axis snapped, and whether it did. -/
def afterAcross : Rect Rat × Bool :=
  h.snapAcross b.threshold b.canvasWidth (h.proportioned start dx dy b)

/-- The rectangle after its vertical axis snapped too, and whether that did. -/
def afterDown : Rect Rat × Bool :=
  h.snapDown b.threshold b.canvasHeight (h.afterAcross start dx dy b).1

/-- The extent that drives after an axis snapped: that of the axis, the first one if both did. -/
def lastDrive : Drive :=
  if (h.afterAcross start dx dy b).2 &&
      (h.firstDrive start dx dy == .width || !(h.afterDown start dx dy b).2) then .width
  else .height

/-- The rectangle before the minimum. -/
def settled : Rect Rat :=
  if (h.afterAcross start dx dy b).2 || (h.afterDown start dx dy b).2 then
    h.conform start b.ratio (h.lastDrive start dx dy b) (h.afterDown start dx dy b).1
  else (h.afterDown start dx dy b).1

/-- The horizontal axis snapped, and no ratio lets the other axis decide the width. -/
def SnapsAcross : Prop :=
  (h.afterAcross start dx dy b).2 = true ∧ (b.ratio = none ∨ h.lastDrive start dx dy b = .width)

/-- The vertical axis snapped, and no ratio lets the other axis decide the height. -/
def SnapsDown : Prop :=
  (h.afterDown start dx dy b).2 = true ∧ (b.ratio = none ∨ h.lastDrive start dx dy b = .height)

variable {b}

theorem resize_eq (hratio : ∀ a ∈ b.ratio, 0 < a) :
    h.resize start dx dy b =
      h.heighten start b.ratio b.least
        (h.widen start b.ratio b.least (h.settled start dx dy b)) := by
  have hkept : (b.ratio.filter fun a => !(a == 0)) = b.ratio := by
    cases hb : b.ratio with
    | none => rfl
    | some a =>
        have ha0 : a ≠ 0 := (hratio a hb).ne'
        exact if_pos (by simpa using ha0)
  unfold resize
  rw [hkept]
  rfl

theorem anchored_afterDown : Held h start (h.afterDown start dx dy b).1 :=
  (((Held.pull h start dx dy).conform ..).snapAcross ..).snapDown ..

theorem anchored_settled : Held h start (h.settled start dx dy b) := by
  unfold settled
  split
  · exact (h.anchored_afterDown start dx dy).conform ..
  · exact h.anchored_afterDown start dx dy

/-- Where nothing snapped the ratio is kept since before, elsewhere it is restored. -/
theorem inRatio_settled (hratio : ∀ a ∈ b.ratio, 0 < a) :
    InRatio b.ratio (h.settled start dx dy b) := by
  unfold settled
  split
  · exact inRatio_conform hratio _ _
  · rename_i hsnapped
    obtain ⟨hacross, hdown⟩ : (h.afterAcross start dx dy b).2 = false ∧
        (h.afterDown start dx dy b).2 = false := by
      simpa using hsnapped
    have hsame : (h.afterDown start dx dy b).1 = h.proportioned start dx dy b :=
      (snapDown_of_not_snapped hdown).trans (snapAcross_of_not_snapped hacross)
    rw [hsame]
    exact inRatio_conform hratio _ _

variable {h start dx dy}

theorem edgeAcross_settled (hsnap : h.SnapsAcross start dx dy b) :
    OnCanvasEdge b.canvasWidth (h.edgeAcross (h.settled start dx dy b)) := by
  obtain ⟨hflag, hdrive⟩ := hsnap
  have hconform := (h.anchored_afterDown start dx dy (b := b)).edgeAcross_conform hdrive
  rw [settled, hflag, Bool.true_or, if_pos rfl, hconform, afterDown, edgeAcross_snapDown]
  exact edgeAcross_snapAcross hflag

theorem edgeDown_settled (hsnap : h.SnapsDown start dx dy b) :
    OnCanvasEdge b.canvasHeight (h.edgeDown (h.settled start dx dy b)) := by
  obtain ⟨hflag, hdrive⟩ := hsnap
  have hconform := (h.anchored_afterDown start dx dy (b := b)).edgeDown_conform hdrive
  rw [settled, hflag, Bool.or_true, if_pos rfl, hconform]
  exact edgeDown_snapDown hflag

/-- The minimum leaves what is large enough. -/
theorem resize_eq_settled (hratio : ∀ a ∈ b.ratio, 0 < a)
    (hwidth : b.least ≤ (h.settled start dx dy b).width)
    (hheight : b.least ≤ (h.settled start dx dy b).height) :
    h.resize start dx dy b = h.settled start dx dy b := by
  have hwiden : h.widen start b.ratio b.least (h.settled start dx dy b) =
      h.settled start dx dy b := if_neg (not_lt.mpr hwidth)
  rw [h.resize_eq start dx dy hratio, hwiden]
  exact if_neg (not_lt.mpr hheight)

end Handle

/-! ## The result -/

/-- **A resize keeps its minimum, its ratio and the edges opposite the handle.**  With exact
numbers, whatever the start, the way of the pointer, the canvas and the threshold: both extents are
at least the minimum, and a positive ratio is kept exactly.  The right edge is that of the start for
the handles at the left and the top one, the left edge for all others; the bottom edge is that of
the start for the handles at the top and the left one, the top edge for all others.  If the
rectangle was large enough before the minimum, and an axis snapped that decides the extent along it,
then the edge that the handle moves on that axis is at zero or at the size of the canvas. -/
theorem Handle.resize_keeps (h : Handle) (start : Rect Rat) (dx dy : Rat) (b : ResizeBounds Rat)
    (hratio : ∀ a ∈ b.ratio, 0 < a) :
    let r := h.resize start dx dy b
    b.least ≤ r.width ∧ b.least ≤ r.height ∧
      (∀ a ∈ b.ratio, r.width = a * r.height) ∧
      (if h ∈ [w, nw, sw, n] then r.right = start.right else r.x = start.x) ∧
      (if h ∈ [n, ne, nw, w] then r.bottom = start.bottom else r.y = start.y) ∧
      (b.least ≤ (h.settled start dx dy b).width → b.least ≤ (h.settled start dx dy b).height →
        (h.SnapsAcross start dx dy b → ∃ c ∈ b.canvasWidth,
          h.edgeAcross r = 0 ∨ h.edgeAcross r = c) ∧
        (h.SnapsDown start dx dy b → ∃ c ∈ b.canvasHeight,
          h.edgeDown r = 0 ∨ h.edgeDown r = c)) := by
  intro r
  have hr : r = h.heighten start b.ratio b.least
      (h.widen start b.ratio b.least (h.settled start dx dy b)) :=
    h.resize_eq start dx dy hratio
  have hwide : InRatio b.ratio (h.widen start b.ratio b.least (h.settled start dx dy b)) :=
    InRatio.widen hratio (h.inRatio_settled start dx dy hratio) b.least
  have hanchored : Held h start r := by
    rw [hr]
    exact ((h.anchored_settled start dx dy).widen ..).heighten ..
  have hright : h.holdsRight = decide (h ∈ [w, nw, sw, n]) := by cases h <;> rfl
  have hbottom : h.flip.holdsRight = decide (h ∈ [n, ne, nw, w]) := by cases h <;> rfl
  refine ⟨?_, ?_, ?_, ?_, ?_, ?_⟩
  · rw [hr]
    exact (h.le_widen ..).trans (width_le_heighten hratio hwide b.least)
  · rw [hr]
    exact h.le_heighten ..
  · rw [hr]
    exact hwide.heighten b.least
  · split
    · exact hanchored.across.right (hright.trans (decide_eq_true ‹_›))
    · exact hanchored.across.left (hright.trans (decide_eq_false ‹_›))
  · split
    · exact hanchored.down.right (hbottom.trans (decide_eq_true ‹_›))
    · exact hanchored.down.left (hbottom.trans (decide_eq_false ‹_›))
  · intro hwidth hheight
    have hsettled : r = h.settled start dx dy b := resize_eq_settled hratio hwidth hheight
    rw [hsettled]
    exact ⟨edgeAcross_settled, edgeDown_settled⟩

/-- A rectangle near the left edge, half as high as wide. -/
def halfAsHigh : Rect Rat := ⟨10, 10, 40, 20⟩

/-- A resize that keeps it so, on a canvas of which only the width is known. -/
def halfAsHighBounds : ResizeBounds Rat :=
  { ratio := some 2, canvasWidth := some 100, threshold := 5, least := 20 }

theorem Handle.resize_keeps_halfAsHigh :
    let r := Handle.sw.resize halfAsHigh (-7) 0 halfAsHighBounds
    r = ⟨0, 10, 50, 25⟩ ∧ 20 ≤ r.width ∧ 20 ≤ r.height ∧ r.width = 2 * r.height ∧
      r.right = halfAsHigh.right ∧ r.y = halfAsHigh.y ∧ (r.x = 0 ∨ r.x = 100) := by
  intro r
  have hratio : ∀ a ∈ halfAsHighBounds.ratio, 0 < a := by
    intro a ha
    cases ha
    decide
  obtain ⟨hwidth, hheight, hkept, hright, htop, hsnap⟩ :=
    Handle.resize_keeps .sw halfAsHigh (-7) 0 halfAsHighBounds hratio
  obtain ⟨c, hc, hx⟩ :=
    (hsnap (by decide +kernel) (by decide +kernel)).1
      ⟨by decide +kernel, .inr (by decide +kernel)⟩
  cases hc
  exact ⟨by decide +kernel, hwidth, hheight, hkept 2 rfl, hright, htop, hx⟩

end Retouch
