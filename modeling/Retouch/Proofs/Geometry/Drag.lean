/-
  A drag draws the layer where it was dropped.

  The rectangle on the preview is brought to canvas pixels, and what the layer gets is worked out
  backwards from there: the padding is taken off and the image turned back, and each coordinate
  becomes a position on the side that the layer was anchored at.  Drawing goes the other way, the
  image is padded and turned (`turned_padded_innerSize`) and the position resolved
  (`LayerMove.resolve_anchored`), so that the layer covers the rectangle again (`drag_draws`).
-/
import Retouch.Editor.Layers
import Retouch.Geometry.Drag
import Retouch.Proofs.Editor.Logic
import Retouch.Proofs.Output
import Retouch.Proofs.State.Merged

namespace Retouch

/-! ## Padding that turns with its image -/

namespace Sides

/-- Whole pixels as exact numbers. -/
def exact (s : Sides Int) : Sides Rat := ⟨s.left, s.top, s.right, s.bottom⟩

theorem turn_exact (s : Sides Int) (rotation : Option Int) :
    s.exact.turn rotation = (s.turn rotation).exact := by
  unfold turn
  split_ifs <;> rfl

/-- A rotation that exchanges the axes lays the padding at the top and the bottom to the sides. -/
theorem turn_across (s : Sides Int) (rotation : Option Int) :
    (s.turn rotation).left + (s.turn rotation).right =
      if exchangesAxes rotation then s.top + s.bottom else s.left + s.right := by
  by_cases h90 : rotation = some 90
  · subst h90
    rfl
  by_cases h180 : rotation = some 180
  · subst h180
    exact Int.add_comm _ _
  by_cases h270 : rotation = some 270
  · subst h270
    exact Int.add_comm _ _
  rw [turn, if_neg h90, if_neg h180, if_neg h270]
  simp [exchangesAxes, h90, h270]

theorem turn_down (s : Sides Int) (rotation : Option Int) :
    (s.turn rotation).top + (s.turn rotation).bottom =
      if exchangesAxes rotation then s.left + s.right else s.top + s.bottom := by
  by_cases h90 : rotation = some 90
  · subst h90
    exact Int.add_comm _ _
  by_cases h180 : rotation = some 180
  · subst h180
    exact Int.add_comm _ _
  by_cases h270 : rotation = some 270
  · subst h270
    rfl
  rw [turn, if_neg h90, if_neg h180, if_neg h270]
  simp [exchangesAxes, h90, h270]

end Sides

/-- The image in a rectangle of whole pixels, the padding taken off and turned back. -/
def innerSize (width height : Int) (s : Sides Int) (rotation : Option Int) (filled : Bool) :
    Size :=
  let across := if filled then s.left + s.right else 0
  let down := if filled then s.top + s.bottom else 0
  if exchangesAxes rotation then ⟨height - across, width - down⟩
  else ⟨width - across, height - down⟩

/-- Whole pixels stay whole when padding in whole pixels is taken off. -/
theorem imageSize_exact (width height : Int) (s : Sides Int) (rotation : Option Int)
    (filled : Bool) :
    imageSize (width : Rat) (height : Rat) s.exact rotation filled =
      (((innerSize width height s rotation filled).width : Rat),
        ((innerSize width height s rotation filled).height : Rat)) := by
  have hacross : (width : Rat) - (s.turn rotation).left - (s.turn rotation).right =
      ((width - ((s.turn rotation).left + (s.turn rotation).right) : Int) : Rat) := by
    push_cast
    ring
  have hdown : (height : Rat) - (s.turn rotation).top - (s.turn rotation).bottom =
      ((height - ((s.turn rotation).top + (s.turn rotation).bottom) : Int) : Rat) := by
    push_cast
    ring
  unfold imageSize
  rw [s.turn_exact]
  show (if exchangesAxes rotation then _ else _) = _
  unfold Sides.exact innerSize
  cases filled with
  | false =>
      simp only [Bool.false_eq_true, if_false, sub_zero]
      split
      · rfl
      · rfl
  | true =>
      simp only [if_true, hacross, hdown, s.turn_across, s.turn_down]
      split
      · rfl
      · rfl

/-- Padding and turning an image undo what was taken off. -/
theorem turned_padded_innerSize (p : Params) (width height : Int) :
    p.turned (p.padded (innerSize width height p.padding p.rotation p.hasFill)) =
      ⟨width, height⟩ := by
  have hexchanges : exchangesAxes p.rotation = true ↔
      p.rotation = some 90 ∨ p.rotation = some 270 := by
    rw [exchangesAxes, Bool.or_eq_true, decide_eq_true_iff, decide_eq_true_iff]
  unfold Params.turned Params.padded innerSize
  by_cases hrotation : p.rotation = some 90 ∨ p.rotation = some 270
  · rw [if_pos hrotation, if_pos (hexchanges.mpr hrotation)]
    cases p.hasFill with
    | false => simp [Size.swapped]
    | true => simp [Size.swapped]
  · rw [if_neg hrotation, if_neg fun h => hrotation (hexchanges.mp h)]
    cases p.hasFill with
    | false => simp
    | true => simp

theorem trunc_intCast (n : Int) : Scalar.trunc (n : Rat) = .ok n := by
  show Except.ok (if (n : Rat) < 0 then -(-(n : Rat)).floor else (n : Rat).floor) = Except.ok n
  congr 1
  split
  · rw [← Int.cast_neg, Rat.floor_intCast, Int.neg_neg]
  · exact Rat.floor_intCast n

/-- An image of at least a pixel is wanted as it is. -/
theorem wantedSize_exact {width height : Int} {s : Sides Int} {rotation : Option Int}
    {filled : Bool} (hwidth : 1 ≤ (innerSize width height s rotation filled).width)
    (hheight : 1 ≤ (innerSize width height s rotation filled).height) :
    wantedSize width height s.exact rotation filled =
      .ok ((innerSize width height s rotation filled).width,
        (innerSize width height s rotation filled).height) := by
  cases filled with
  | true =>
      show (do
        let (w, h) := imageSize (width : Rat) (height : Rat) s.exact rotation true
        let a ← (Scalar.trunc w : Except Number.Fault Int)
        let b ← (Scalar.trunc h : Except Number.Fault Int)
        return (max 1 a, max 1 b) : Except Failure (Int × Int)) = _
      rw [imageSize_exact]
      simp only [trunc_intCast]
      show Except.ok (max 1 _, max 1 _) = _
      rw [max_eq_right hwidth, max_eq_right hheight]
  | false =>
      unfold innerSize at hwidth hheight ⊢
      simp only [wantedSize, Bool.false_eq_true, if_false, sub_zero] at hwidth hheight ⊢
      split at hwidth
      · rename_i hexchanges
        rw [if_pos hexchanges] at hheight ⊢
        show Except.ok _ = _
        rw [max_eq_right hwidth, max_eq_right hheight, if_pos hexchanges]
      · rename_i hexchanges
        rw [if_neg hexchanges] at hheight ⊢
        show Except.ok _ = _
        rw [max_eq_right hwidth, max_eq_right hheight, if_neg hexchanges]

/-! ## The size -/

/-- Whether the wanted size of settings is what their image gets: it is not fitted in, and no axis
    follows the canvas below. -/
structure Params.FreelySized (p : Params) : Prop where
  fitIn : p.fitIn ≠ some true
  widthFull : p.widthFull ≠ some true
  heightFull : p.heightFull ≠ some true

/-- An image that is not fitted in gets the size that is wanted of it, whatever its own size and
    its crop. -/
theorem Params.output_withExtents (α : Type) [Scalar α] {p : Params} (hp : p.FreelySized)
    {s : Size} (hwidth : s.width ≠ 0) (hheight : s.height ≠ 0) (natural : Size)
    (canvas : Option Size) :
    (p.withExtents s).output α natural canvas = .ok (p.turned (p.padded s)) := by
  have hwanted : ∀ n : Int, n ≠ 0 → wanted (some n) = some n := by
    intro n hn
    simp [wanted, Option.filter, hn]
  have htarget : (p.withExtents s).target canvas = (some s.width, some s.height) := by
    rw [target_of_not_full (p := p.withExtents s) hp.widthFull hp.heightFull]
    exact Prod.ext (hwanted _ hwidth) (hwanted _ hheight)
  unfold output resized
  rw [htarget]
  simp only [show (p.withExtents s).fitIn ≠ some true from hp.fitIn, if_false]
  rfl

/-! ## The position -/

namespace LayerMove

variable {near far : Side}

/-- A position that was brought about by a drag leads back to the coordinate of the drag. -/
theorem resolve_anchored (hsides : near ≠ far) (coordinate extent canvas : Int)
    (current : Position) (fallback : Rat) :
    Position.resolve (some (anchored coordinate extent canvas current near far)) (extent : Rat)
      (canvas : Rat) near far fallback = .ok (coordinate : Rat) := by
  have hwhole : ∀ n : Int, 0 ≤ n →
      (Scalar.ofWhole (n.toNat : Int) : Except Number.Fault Rat) = .ok (n : Rat) := by
    intro n hn
    show Except.ok (((n.toNat : Int) : Rat)) = _
    rw [Int.toNat_of_nonneg hn]
  unfold anchored
  split
  · simp only
    split
    · rename_i hbeyond
      -- Flush or beyond the far side, counted from there.
      simp only [Position.resolve, if_neg hsides.symm, if_true, hwhole _ hbeyond]
      show Except.ok ((canvas : Rat) - extent + ((coordinate + extent - canvas : Int) : Rat)) = _
      congr 1
      push_cast
      ring
    · rename_i hbeyond
      have hnegative : (Number.int (coordinate + extent - canvas)).isNegative = true := by
        rw [Number.isNegative]
        exact decide_eq_true (by omega)
      simp only [Position.resolve, hnegative, if_true]
      show Except.ok ((canvas : Rat) + ((coordinate + extent - canvas : Int) : Rat) - extent) = _
      congr 1
      push_cast
      ring
  · split
    · simp only [Position.resolve, if_true, hwhole (-coordinate) (by omega)]
      show Except.ok (-((-coordinate : Int) : Rat)) = _
      congr 1
      push_cast
      ring
    · rename_i hcoordinate
      have hnegative : (Number.int coordinate).isNegative = false := by
        rw [Number.isNegative]
        exact decide_eq_false hcoordinate
      simp only [Position.resolve, hnegative, Bool.false_eq_true, if_false]
      rfl

/-- A drag keeps the side that a position is anchored at. -/
theorem isFarAnchored_anchored (hsides : near ≠ far) (coordinate extent canvas : Int)
    (current : Position) :
    isFarAnchored far (anchored coordinate extent canvas current near far) =
      isFarAnchored far current := by
  unfold anchored
  split
  · rename_i hfar
    rw [hfar]
    simp only
    split
    · exact decide_eq_true rfl
    · exact decide_eq_true (by omega)
  · rename_i hfar
    rw [Bool.not_eq_true] at hfar
    rw [hfar]
    split
    · exact decide_eq_false hsides
    · exact decide_eq_false (by omega)

/-- A drag gives coordinates in whole pixels. -/
theorem valid_anchored (coordinate extent canvas : Int) (current : Position) (near far : Side) :
    (anchored coordinate extent canvas current near far).Valid := by
  unfold anchored
  simp only
  split
  · split
    · trivial
    · rfl
  · split
    · trivial
    · rfl

theorem isDraggable_of_ne {p : Position} (hp : p ≠ .centered) : isDraggable (some p) = true := by
  cases p with
  | absolute px => rfl
  | aligned side outside => rfl
  | centered => exact absurd rfl hp

end LayerMove

/-! ## The drag -/

section

variable {α : Type} [Scalar α] {display : Rect α} {shownWidth shownHeight : α} {canvas : Size}
  {w h cx cy : Int}

/-- What a drag gives, once the rectangle is brought to canvas pixels. -/
theorem drag_eq (hwidth : toCanvas display.width shownWidth canvas.width = .ok w)
    (hheight : toCanvas display.height shownHeight canvas.height = .ok h)
    (hleft : toCanvas display.x shownWidth canvas.width = .ok cx)
    (htop : toCanvas display.y shownHeight canvas.height = .ok cy)
    {s : Sides Int} {rotation : Option Int} {filled : Bool}
    (hinnerWidth : 1 ≤ (innerSize w h s rotation filled).width)
    (hinnerHeight : 1 ≤ (innerSize w h s rotation filled).height)
    {x y : Position} (hx : x ≠ .centered) (hy : y ≠ .centered) :
    drag display shownWidth shownHeight canvas s.exact rotation (some x) (some y) filled =
      .ok ⟨some (LayerMove.anchored cx w canvas.width x .left .right),
        some (LayerMove.anchored cy h canvas.height y .top .bottom),
        (innerSize w h s rotation filled).width, (innerSize w h s rotation filled).height⟩ := by
  unfold drag
  rw [hwidth, hheight]
  simp only [LayerMove.isDraggable_of_ne hx, LayerMove.isDraggable_of_ne hy, if_true, hleft, htop]
  show (wantedSize w h s.exact rotation filled >>= _) = _
  rw [wantedSize_exact hinnerWidth hinnerHeight]
  rfl

end

/-! ## The update -/

/-- A layer with what a drag gives: the wanted size, and the positions that take part. -/
def LayerMove.applied (m : LayerMove) (l : Layer) : Layer :=
  ⟨l.props.placed (m.x.getD l.props.x) (m.y.getD l.props.y),
    some ⟨l.state.params.withExtents ⟨m.width, m.height⟩, l.state.layers⟩⟩

namespace Editor

open Edit

/-- The settings of a layer get the wanted size. -/
theorem newTransforms_extents {R : Bool → Params → Prop} {l : Layer}
    (hvalid : l.Holds Params.Valid LayerProps.Valid) (hshort : l.Holds R LayerProps.Short)
    (size : Size) (t : Trace) :
    newTransforms l (.object [("width", .int size.width), ("height", .int size.height)]) none false
      t = (.ok ⟨l.state.params.withExtents size, l.state.layers⟩, t) := by
  obtain ⟨p, transforms⟩ := l
  cases transforms with
  | none =>
      -- The document of a wanted size is what the changes make of no settings at all.
      have hnone : State.empty.Holds Params.Valid LayerProps.Valid false :=
        ⟨(fun _ h => nomatch h), fun h => nomatch h⟩
      have hfew : State.empty.Holds (fun _ _ => True) LayerProps.Short false := trivial
      have hempty : Updates.state
          { value := .object [("width", .int size.width), ("height", .int size.height)] } =
            pure ⟨State.empty.params.withExtents size, State.empty.layers⟩ :=
        State.merged_extents hnone hfew size
      exact bind_of_ok (check_of_pure hempty)
  | some s =>
      have himage := hvalid.2.params.image rfl
      have hmerged := State.merged_extents hvalid.2 hshort.2 size
      refine (bind_of_ok (check_of_pure hmerged)).trans ?_
      show (Except.ok (State.withoutIdentity _), t) = _
      have hsame : (s.params.withExtents size).withoutIdentity = s.params.withExtents size := by
        unfold Params.withoutIdentity Params.withExtents
        simp only
        rw [← himage.1, ← himage.2]
      show (Except.ok (State.mk (s.params.withExtents size).withoutIdentity s.layers), t) = _
      rw [hsame]
      rfl

/-- Updating a layer with what a drag gives changes nothing else about it. -/
theorem updatedLayer_updates {R : Bool → Params → Prop} {l : Layer}
    (hvalid : l.Holds Params.Valid LayerProps.Valid) (hshort : l.Holds R LayerProps.Short)
    {x y : Position} (hx : x.Valid) (hy : y.Valid) (hxs : x.Short) (hys : y.Short)
    (width height : Int) (t : Trace) :
    updatedLayer l { value := .object (LayerMove.updates ⟨some x, some y, width, height⟩) } none t =
      (.ok (LayerMove.applied ⟨some x, some y, width, height⟩ l), t) := by
  have hplaced := Layer.merged_positions hvalid hshort hx hy hxs hys
  have hsized := newTransforms_extents hvalid hshort ⟨width, height⟩ t
  exact (bind_of_ok (check_of_pure hplaced)).trans (bind_of_ok hsized)

end Editor

/-! ## What is drawn -/

/-- **Dragging and drawing are inverse.**  Let `w`, `h`, `cx` and `cy` be the size and the corner
of the rectangle of a drag in canvas pixels, on a preview in numbers of any kind.  The layer is not
fitted in, no axis of it follows the canvas and none is centered, and without the padding at least a
pixel is left for the image.  Then the drag has a result, and the layer with it is rendered in that
size, whatever its own size and its crop, and stands with its corner at that place, each axis
anchored at the side where it was.  Updating the layer with the result gives just that layer, if
none of its numbers is too long to be read back. -/
theorem drag_draws {α : Type} [Scalar α] {display : Rect α} {shownWidth shownHeight : α}
    {canvas : Size} {l : Layer} {w h cx cy : Int}
    (hwidth : toCanvas display.width shownWidth canvas.width = .ok w)
    (hheight : toCanvas display.height shownHeight canvas.height = .ok h)
    (hleft : toCanvas display.x shownWidth canvas.width = .ok cx)
    (htop : toCanvas display.y shownHeight canvas.height = .ok cy)
    (hfree : l.state.params.FreelySized) (hx : l.props.x ≠ .centered) (hy : l.props.y ≠ .centered)
    (hspace :
      let p := l.state.params
      let image := imageSize (w : Rat) (h : Rat) p.padding.exact p.rotation p.hasFill
      1 ≤ image.1 ∧ 1 ≤ image.2) :
    let p := l.state.params
    ∃ m x y, drag display shownWidth shownHeight canvas p.padding.exact p.rotation
        (some l.props.x) (some l.props.y) p.hasFill = .ok m ∧
      m.x = some x ∧ m.y = some y ∧
      (∀ (β : Type) [Scalar β] (natural : Size) (below : Option Size),
        (m.applied l).state.params.output β natural below = .ok ⟨w, h⟩) ∧
      (∀ fallbackLeft fallbackTop, ∃ place : Placement Rat,
        placement (some (m.applied l).props.x) (some (m.applied l).props.y) (w : Rat) (h : Rat)
          (canvas.width : Rat) (canvas.height : Rat) fallbackLeft fallbackTop = .ok place ∧
        place.left = cx ∧ place.top = cy) ∧
      LayerMove.isFarAnchored .right x = LayerMove.isFarAnchored .right l.props.x ∧
      LayerMove.isFarAnchored .bottom y = LayerMove.isFarAnchored .bottom l.props.y ∧
      (l.Holds Params.Valid LayerProps.Valid → l.Holds (fun _ => Params.Short) LayerProps.Short →
        x.Short → y.Short → ∀ t,
        Editor.updatedLayer l { value := .object m.updates } none t = (.ok (m.applied l), t)) := by
  intro p
  obtain ⟨hspaceWidth, hspaceHeight⟩ := hspace
  obtain ⟨inner, hinner⟩ : ∃ s, innerSize w h p.padding p.rotation p.hasFill = s := ⟨_, rfl⟩
  have hsize := imageSize_exact w h p.padding p.rotation p.hasFill
  rw [hinner] at hsize
  rw [hsize] at hspaceWidth hspaceHeight
  have hinnerWidth : 1 ≤ inner.width := by
    exact_mod_cast (show (1 : Rat) ≤ inner.width from hspaceWidth)
  have hinnerHeight : 1 ≤ inner.height := by
    exact_mod_cast (show (1 : Rat) ≤ inner.height from hspaceHeight)
  have hdrag := drag_eq hwidth hheight hleft htop (hinner ▸ hinnerWidth) (hinner ▸ hinnerHeight)
    hx hy
  rw [hinner] at hdrag
  refine ⟨_, _, _, hdrag, rfl, rfl, ?_, ?_, ?_, ?_, ?_⟩
  · intro β _ natural below
    refine (Params.output_withExtents β hfree (s := inner) (by omega) (by omega) natural
      below).trans ?_
    rw [← hinner, turned_padded_innerSize]
  · intro fallbackLeft fallbackTop
    refine ⟨⟨cx, cy, percent (cx : Rat) canvas.width, percent (cy : Rat) canvas.height⟩, ?_, rfl,
      rfl⟩
    unfold placement
    have hresolvedLeft := LayerMove.resolve_anchored (show Side.left ≠ .right by decide) cx
      w canvas.width l.props.x fallbackLeft
    have hresolvedTop := LayerMove.resolve_anchored (show Side.top ≠ .bottom by decide) cy
      h canvas.height l.props.y fallbackTop
    show (do
      let left ← Position.resolve (some (LayerMove.anchored cx w canvas.width l.props.x .left
        .right)) (w : Rat) canvas.width .left .right fallbackLeft
      let top ← Position.resolve (some (LayerMove.anchored cy h canvas.height l.props.y .top
        .bottom)) (h : Rat) canvas.height .top .bottom fallbackTop
      return (⟨left, top, percent left canvas.width, percent top canvas.height⟩ :
        Placement Rat)) = Except.ok _
    rw [hresolvedLeft, hresolvedTop]
    rfl
  · exact LayerMove.isFarAnchored_anchored (by decide) ..
  · exact LayerMove.isFarAnchored_anchored (by decide) ..
  · intro hvalid hshort hxs hys t
    exact Editor.updatedLayer_updates hvalid hshort (LayerMove.valid_anchored ..)
      (LayerMove.valid_anchored ..) hxs hys inner.width inner.height t

/-- A padded layer on its side, anchored at the right. -/
def sideways : Layer :=
  ⟨{ id := "a", imagePath := "a.png", originalDimensions := ⟨10, 20⟩, x := .aligned .right 0,
     y := .absolute (.int 5) },
    some ⟨{ fillColor := some "red", paddingLeft := some 1, paddingTop := some 2,
            paddingRight := some 3, paddingBottom := some 4, rotation := some 90 }, none⟩⟩

/-- Where it is dropped on a preview of half the size, over the top and the right edge. -/
def overTheEdge : Rect Rat := ⟨480, -10, 60, 50⟩

theorem drag_draws_sideways :
    toCanvas overTheEdge.x 500 1000 = .ok 960 ∧ toCanvas overTheEdge.y 400 800 = .ok (-20) ∧
      ∃ m, drag overTheEdge 500 400 ⟨1000, 800⟩ (⟨1, 2, 3, 4⟩ : Sides Rat) (some 90)
          (some (.aligned .right 0)) (some (.absolute (.int 5))) true = .ok m ∧
        m = ⟨some (.aligned .right 80), some (.aligned .top 20), 96, 114⟩ ∧
        (m.applied sideways).state.params.output Rat ⟨10, 20⟩ none = .ok ⟨120, 100⟩ := by
  have hwidth : toCanvas overTheEdge.width 500 1000 = .ok 120 :=
    of_toOption_eq_some (by decide +kernel)
  have hheight : toCanvas overTheEdge.height 400 800 = .ok 100 :=
    of_toOption_eq_some (by decide +kernel)
  have hleft : toCanvas overTheEdge.x 500 1000 = .ok 960 :=
    of_toOption_eq_some (by decide +kernel)
  have htop : toCanvas overTheEdge.y 400 800 = .ok (-20) :=
    of_toOption_eq_some (by decide +kernel)
  obtain ⟨m, x, y, hm, -, -, houtput, -⟩ := @drag_draws Rat _ overTheEdge 500 400 ⟨1000, 800⟩
    sideways 120 100 960 (-20) hwidth hheight hleft htop ⟨by decide, by decide, by decide⟩
    (by decide) (by decide) (by decide +kernel)
  have hresult : m = ⟨some (.aligned .right 80), some (.aligned .top 20), 96, 114⟩ := by
    have hvalue : drag overTheEdge 500 400 ⟨1000, 800⟩ (⟨1, 2, 3, 4⟩ : Sides Rat) (some 90)
        (some (.aligned .right 0)) (some (.absolute (.int 5))) true =
          .ok ⟨some (.aligned .right 80), some (.aligned .top 20), 96, 114⟩ :=
      of_toOption_eq_some (by decide +kernel)
    exact Except.ok.inj (hm.symm.trans hvalue)
  exact ⟨hleft, htop, m, hm, hresult, houtput Rat ⟨10, 20⟩ none⟩

end Retouch
