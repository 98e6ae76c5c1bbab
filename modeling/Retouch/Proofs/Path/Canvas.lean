/-
  The canvas of a layer, on its own and in the composition.

  A layer that is edited on its own lies on a canvas that is found by following the context from
  the root, with the axes that follow a canvas resolved on the way.  The path of the composition
  makes the settings of each layer explicit first, and passes a canvas down.  Without rounding the
  two agree (`Editor.canvas_of_context`): explicit settings render to the size that the settings
  themselves have on the canvas (`LayerProps.exists_rendersAs`), so by induction on the context
  both reach the layer with one canvas, and write the same layers on top of it.
-/
import Retouch.Editor.Canvas
import Retouch.Proofs.Output
import Retouch.Proofs.Path.ReadBack
import Retouch.Proofs.Tree.Lens

namespace Retouch

/-! ## Paths without rounding -/

section

variable (p : Params) (scale : Rat)

theorem succeeds_scaledExtent (extent : Option Int) : Succeeds (scaledExtent scale extent) := by
  unfold scaledExtent
  split
  · exact .ok _
  · exact (succeeds_scaleRound _ _).lift.bind fun _ => .ok _

theorem Params.succeeds_scaledTarget (natural : Option Size) :
    Succeeds (p.scaledTarget natural scale) := by
  unfold scaledTarget
  simp only
  split
  · exact .ok _
  · split
    · split
      · exact .ok _
      · exact (p.succeeds_resized _ _).bind fun _ => (succeeds_scaledExtent _ _).bind fun _ =>
          (succeeds_scaledExtent _ _).bind fun _ => .ok _
    · exact (succeeds_scaledExtent _ _).bind fun _ => (succeeds_scaledExtent _ _).bind fun _ =>
        .ok _

theorem Params.succeeds_scaledPadding : Succeeds (p.scaledPadding scale) := by
  have hround : ∀ n : Int, Succeeds (liftM (Scalar.scaleRound n scale) : Except Failure Int) :=
    fun n => (succeeds_scaleRound n scale).lift
  unfold scaledPadding
  split
  · refine (hround _).bind fun _ => (hround _).bind fun _ => (hround _).bind fun _ =>
      (hround _).bind fun _ => ?_
    split
    · exact .ok _
    · exact .ok _
  · exact .ok _

theorem Params.succeeds_frontFilters : Succeeds (p.frontFilters scale) := by
  refine Succeeds.bind ?_ fun _ => .ok _
  unfold cornerFilter
  split
  · exact .ok _
  · exact (succeeds_scaleRound _ _).lift.bind fun _ => .ok _

theorem Position.succeeds_scaled (position : Position) : Succeeds (position.scaled scale) := by
  unfold scaled
  split
  · rename_i px
    split
    · exact .ok _
    · have hvalue : Succeeds (px.toScalar : Except Number.Fault Rat) := by
        cases px <;> exact ⟨_, rfl⟩
      refine hvalue.lift.bind fun x => ?_
      split
      · exact (Succeeds.lift ⟨_, rfl⟩).bind fun _ => .ok _
      · exact (Succeeds.lift ⟨_, rfl⟩).bind fun _ => .ok _
  · exact .ok _

variable {p} {inner : Option Size → Except Failure (List Filter)}
  (hinner : ∀ inside, Succeeds (inner inside))

include hinner

/-- The path of an image is written if the filters of its layers are. -/
theorem Params.succeeds_path (imagePath : String) (natural : Option Size) (o : EncodeOptions Rat)
    (isLayer : Bool) (canvas : Option Size) :
    Succeeds (p.path imagePath natural o isLayer canvas inner) := by
  unfold path
  refine (p.succeeds_scaledTarget o.scale natural).bind fun _ => ?_
  refine (p.succeeds_scaledPadding o.scale).bind fun _ => ?_
  have hchain : ∀ inside, Succeeds (p.filters o isLayer (inner inside)) := fun inside =>
    (p.succeeds_frontFilters o.scale).bind fun _ => (hinner inside).bind fun _ => .ok _
  simp only
  split
  · exact (p.succeeds_output _ _).map.bind fun inside => (hchain inside).bind fun _ => .ok _
  · exact (hchain _).bind fun _ => .ok _

end

/-! ## What a layer is rendered with -/

/-- Whether settings are others with the axes that follow a canvas resolved against one. -/
structure Params.Resolves (r p : Params) (c : Size) : Prop where
  widthFull : r.widthFull ≠ some true
  heightFull : r.heightFull ≠ some true
  target : ∀ canvas, r.target canvas = p.target (some c)
  frame : r.SameFrame p
  width : p.widthFull = some true →
    r.width = some (Params.filled c.width (p.widthFullOffset.getD 0))
  height : p.heightFull = some true →
    r.height = some (Params.filled c.height (p.heightFullOffset.getD 0))

theorem Params.resolves (p : Params) (c : Size) :
    (p.withoutIdentity.resolveFill (some c)).Resolves p c where
  widthFull := (p.withoutIdentity.not_full_resolveFill c).1
  heightFull := (p.withoutIdentity.not_full_resolveFill c).2
  target := p.withoutIdentity.target_resolveFill c
  frame :=
    have h := p.withoutIdentity.sameFrame_resolveFill (some c)
    ⟨h.source, h.fitIn, h.padded, h.turned⟩
  width h := Params.width_resolveFill (p := p.withoutIdentity) c h
  height h := Params.height_resolveFill (p := p.withoutIdentity) c h

namespace Params.Resolves

variable {r p : Params} {c : Size}

theorem target_eq_none (h : r.Resolves p c)
    (hwanted : Params.wanted r.width = none ∧ Params.wanted r.height = none)
    (canvas : Option Size) : r.target canvas = (none, none) := by
  rw [Params.target_of_not_full h.widthFull h.heightFull, hwanted.1, hwanted.2]

/-- Settings that ask for no size render as if they asked for the size that the image has. -/
theorem output_source (h : r.Resolves p c)
    (hwanted : Params.wanted r.width = none ∧ Params.wanted r.height = none) (natural : Size)
    (canvas : Option Size) :
    ({ r with
      width := some (r.source natural).width, height := some (r.source natural).height
      proportion := none } : Params).output Rat natural canvas =
        p.output Rat natural (some c) := by
  have hnone : p.target (some c) = (none, none) :=
    (h.target none).symm.trans (h.target_eq_none hwanted none)
  have hasked := Params.resized_source
    (Params.target_of_not_full (p := { r with
      width := some (r.source natural).width, height := some (r.source natural).height
      proportion := none }) h.widthFull h.heightFull canvas)
  have hsize : r.turned (r.padded (r.source natural)) = p.turned (p.padded (p.source natural)) := by
    rw [h.frame.turned, h.frame.padded, h.frame.source]
  unfold Params.output
  rw [hasked, resized_of_no_target Rat p natural (some c) hnone]
  exact congrArg Except.ok hsize

/-- The proportion does not matter. -/
theorem output_eq (h : r.Resolves p c) (natural : Size) (canvas : Option Size) :
    ({ r with proportion := none } : Params).output Rat natural canvas =
      p.output Rat natural (some c) :=
  Params.SameFrame.output_eq Rat
    ⟨h.frame.source, h.frame.fitIn, h.frame.padded, h.frame.turned⟩ (h.target canvas)

end Params.Resolves

/-- What a layer is rendered with on a canvas renders, on any canvas, to the size that the settings
    of the layer have on that one. Axes that follow the canvas are resolved. -/
structure LayerProps.RendersAs (l : LayerProps) (p : Params) (c : Size) (q : Params) : Prop where
  eq_ok : l.rendered Rat p (some c) = .ok q
  output : ∀ canvas, q.output Rat l.originalDimensions canvas =
    p.output Rat l.originalDimensions (some c)
  width : p.widthFull = some true →
    q.width = some (Params.filled c.width (p.widthFullOffset.getD 0))
  height : p.heightFull = some true →
    q.height = some (Params.filled c.height (p.heightFullOffset.getD 0))

/-- Every layer is rendered, whether a size is wanted or not. -/
theorem LayerProps.exists_rendersAs (l : LayerProps) (p : Params) (c : Size) :
    ∃ q, l.RendersAs p c q := by
  have hresolves := p.resolves c
  -- The resolved settings are made opaque: only what they resolve matters.
  have hrendered : l.rendered Rat p (some c) =
      let r := p.withoutIdentity.resolveFill (some c)
      if (Params.wanted r.width).isNone && (Params.wanted r.height).isNone then do
        let size ← r.resized Rat l.originalDimensions none
        return { r with width := some size.width, height := some size.height, proportion := none }
      else return { r with proportion := none } := rfl
  generalize p.withoutIdentity.resolveFill (some c) = r at hresolves hrendered
  by_cases hwanted : ((Params.wanted r.width).isNone && (Params.wanted r.height).isNone) = true
  · simp only [hwanted, if_true] at hrendered
    rw [Bool.and_eq_true_iff, Option.isNone_iff_eq_none, Option.isNone_iff_eq_none] at hwanted
    rw [resized_of_no_target Rat r _ none (hresolves.target_eq_none hwanted none)] at hrendered
    -- An axis that follows the canvas asks for a size.
    refine ⟨_, hrendered, hresolves.output_source hwanted _, fun h => ?_, fun h => ?_⟩
    · rw [hresolves.width h, Params.wanted_filled] at hwanted
      cases hwanted.1
    · rw [hresolves.height h, Params.wanted_filled] at hwanted
      cases hwanted.2
  · rw [if_neg hwanted] at hrendered
    exact ⟨_, hrendered, hresolves.output_eq _, hresolves.width, hresolves.height⟩

/-! ## Layers without rounding -/

section

variable (scale : Rat)

theorem LayerProps.succeeds_filter (l : LayerProps) (p : Params) (canvas : Option Size)
    {inner : Option Size → Except Failure (List Filter)}
    (hinner : ∀ inside, Succeeds (inner inside)) : Succeeds (l.filter p canvas scale inner) := by
  unfold filter
  refine Succeeds.bind ?_ fun q => ?_
  · unfold rendered
    simp only
    split
    · exact (Params.succeeds_resized _ _ _).bind fun _ => .ok _
    · exact .ok _
  refine (q.succeeds_output _ _).bind fun size => ?_
  refine (Params.succeeds_path hinner _ _ _ _ _).bind fun sub => ?_
  exact (Position.succeeds_scaled scale _).bind fun x =>
    (Position.succeeds_scaled scale _).bind fun y => .ok _

mutual

theorem Layer.succeeds_filter (l : Layer) (canvas : Option Size) :
    Succeeds (l.filter canvas scale) := by
  rw [Layer.filter_eq]
  have hbare : ∀ inside, Succeeds (layerFilters inside scale []) := fun inside =>
    ⟨[], by rw [layerFilters]⟩
  obtain ⟨props, transforms⟩ := l
  cases transforms with
  | none => exact LayerProps.succeeds_filter scale props _ canvas hbare
  | some s =>
      obtain ⟨p, layers⟩ := s
      cases layers with
      | none => exact LayerProps.succeeds_filter scale props p canvas hbare
      | some ls =>
          exact LayerProps.succeeds_filter scale props p canvas fun inside =>
            succeeds_layerFilters ls inside

/-- Layers are always written, if it is done without rounding. -/
theorem succeeds_layerFilters (ls : List Layer) (canvas : Option Size) :
    Succeeds (layerFilters canvas scale ls) := by
  cases ls with
  | nil => exact ⟨[], by rw [layerFilters]⟩
  | cons l ls =>
      rw [layerFilters_cons]
      split
      · exact (Layer.succeeds_filter l canvas).bind fun _ =>
          (succeeds_layerFilters ls canvas).bind fun _ => .ok _
      · exact succeeds_layerFilters ls canvas

end

end

/-! ## Images in a chain -/

/-- Whether a filter is a layer. -/
def Filter.isImage (f : Filter) : Bool := f.name = "image"

section

variable {α : Type} [Scalar α]

section

variable {name : String} (hname : name ≠ "image")

include hname

theorem images_amountFilter (amount : Option Float) (f : Float → Float) :
    (amountFilter name amount f).filter Filter.isImage = [] := by
  unfold amountFilter
  split
  · split <;> simp [Filter.isImage, hname]
  · rfl

theorem images_markFilter (mark : Option Bool) :
    (markFilter name mark).filter Filter.isImage = [] := by
  unfold markFilter
  split <;> simp [Filter.isImage, hname]

theorem images_countFilter (count : Option Int) :
    (countFilter name count).filter Filter.isImage = [] := by
  unfold countFilter
  split <;> simp [Filter.isImage, hname]

theorem images_wordFilter (word : Option String) :
    (wordFilter name word).filter Filter.isImage = [] := by
  unfold wordFilter
  split
  · split <;> simp [Filter.isImage, hname]
  · rfl

end

theorem images_frontFilters {p : Params} {scale : α} {fs : List Filter}
    (h : p.frontFilters scale = .ok fs) : fs.filter Filter.isImage = [] := by
  unfold Params.frontFilters at h
  obtain ⟨corner, hcorner, h⟩ := of_bind_eq_ok h
  cases h
  have hcorners : corner.filter Filter.isImage = [] := by
    unfold cornerFilter at hcorner
    split at hcorner
    · cases hcorner
      rfl
    · obtain ⟨n, -, hcorner⟩ := of_bind_eq_ok hcorner
      cases hcorner
      rfl
  cases p.fillColor <;>
    simp [List.filter_append, images_amountFilter, images_markFilter, images_countFilter, hcorners,
      Filter.isImage]

omit [Scalar α] in
theorem images_backFilters (p : Params) {o : EncodeOptions α} (hextra : o.extraFilters = []) :
    (p.backFilters o).filter Filter.isImage = [] := by
  unfold Params.backFilters
  cases o.forPreview <;> cases p.activeProportion <;>
    simp [List.filter_append, images_markFilter, images_countFilter, images_wordFilter, hextra,
      Filter.isImage]

/-- The filters of layers are images. -/
theorem images_layerFilters {canvas : Option Size} {scale : α} {ls : List Layer} {fs : List Filter}
    (h : layerFilters canvas scale ls = .ok fs) : fs.filter Filter.isImage = fs := by
  induction ls generalizing fs with
  | nil =>
      rw [layerFilters] at h
      cases h
      rfl
  | cons l ls ih =>
      rw [layerFilters_cons] at h
      split at h
      · obtain ⟨f, hf, h⟩ := of_bind_eq_ok h
        obtain ⟨gs, hgs, h⟩ := of_bind_eq_ok h
        cases h
        rw [Layer.filter_eq] at hf
        obtain ⟨q, size, sub, rest, -, -, -, rfl, -⟩ := LayerProps.filter_eq_ok hf
        rw [List.filter_cons_of_pos rfl, ih hgs]
      · exact ih h

/-- The images in the chain of a state are its layers. -/
theorem State.images_of_filters {s : State} {o : EncodeOptions α} {inside : Option Size}
    {isLayer : Bool} {fs : List Filter} (hextra : o.extraFilters = [])
    (h : s.filters inside o isLayer = .ok fs) :
    layerFilters inside o.scale s.layerList = .ok (fs.filter Filter.isImage) := by
  unfold State.filters Params.filters at h
  obtain ⟨front, hfront, h⟩ := of_bind_eq_ok h
  obtain ⟨middle, hmiddle, h⟩ := of_bind_eq_ok h
  cases h
  have hback : (if isLayer then [] else s.params.backFilters o).filter Filter.isImage = [] := by
    split
    · rfl
    · exact images_backFilters s.params hextra
  rw [List.filter_append, List.filter_append, images_frontFilters hfront, hback,
    images_layerFilters hmiddle, List.nil_append, List.append_nil, hmiddle]

end

/-! ## Texts within texts -/

theorem infix_intercalate {separator y : String} {ys : List String} (h : y ∈ ys) :
    y.toList <:+: (String.intercalate separator ys).toList := by
  induction ys with
  | nil => cases h
  | cons z zs ih =>
      by_cases hzs : zs = []
      · subst hzs
        rw [List.mem_singleton.mp h, String.intercalate_singleton]
      · rw [String.intercalate_cons_of_ne_nil hzs, String.toList_append, String.toList_append]
        rcases List.mem_cons.mp h with rfl | h
        · rw [List.append_assoc]
          exact (List.prefix_append _ _).isInfix
        · exact (ih h).trans (List.suffix_append _ _).isInfix

/-! ## What an editor writes -/

section

variable (α : Type) [Scalar α]

/-- The encoding of the complete composition of an editor. -/
def Editor.baseEncoding (e : Editor) : Encoding α :=
  ⟨e.root.withoutIdentity, e.imagePath, some e.size, { scale := 1 }, false, none⟩

/-- The encoding of what is being edited, on its own. -/
def Editor.contextEncoding (e : Editor) : Except Failure (Encoding α) := do
  let s ← e.current
  let size ← e.currentSize
  let canvas ← e.root.canvasBelow α e.size e.path
  let imagePath ← e.currentImage
  return ⟨s.resolveFill canvas, imagePath, some size,
    { previewFormat := e.settings.previewFormat, scale := 1 }, false, none⟩

end

theorem Editor.basePath_eq (e : Editor) : e.basePath e.root [] = (e.baseEncoding Float).path := rfl

theorem Editor.currentPath_eq (e : Editor) :
    e.currentPath false = (do (← e.contextEncoding Float).path) := by
  unfold currentPath contextEncoding canvas
  cases e.current with
  | error f => rfl
  | ok s =>
      cases e.currentSize with
      | error f => rfl
      | ok size =>
          cases e.root.canvasBelow Float e.size e.path with
          | error f => rfl
          | ok canvas => cases e.currentImage <;> rfl

/-! ## Along a path -/

namespace Encoding

variable {α : Type} [Scalar α] {c d : Encoding α} {l : Layer} {path : List String}

/-- The canvas that an encoding tells its layers. -/
def inside (c : Encoding α) : Except Failure (Option Size) :=
  c.state.params.canvasInside α c.natural c.canvas

/-- Whether an encoding writes a layer, on a canvas that it passes down, by another encoding. -/
structure Renders (c : Encoding α) (l : Layer) (canvas : Option Size) (d : Encoding α) : Prop where
  mem : l ∈ c.state.layerList
  visible : l.props.visible = true
  inside_eq : c.inside = .ok canvas
  encoding : ∃ q size, l.props.rendered α l.state.params canvas = .ok q ∧
    q.output α l.props.originalDimensions canvas = .ok size ∧
    d = ⟨{ l.state with params := q }, l.props.imagePath, some l.props.originalDimensions,
      { scale := c.options.scale }, true, some size⟩

/-- What is rendered is written into the path. -/
theorem Renders.makes {canvas : Option Size} (h : c.Renders l canvas d) : c.Makes d := by
  obtain ⟨hl, hvisible, hinside, q, size, hq, hsize, hd⟩ := h
  exact ⟨l, hl, canvas, q, size, hvisible, hinside, hq, hsize, hd⟩

/-- Whether an encoding reaches a layer along a path of ids, layer by layer: on which canvas it
    writes the layer, and by which encoding. -/
inductive Reaches : Encoding α → List String → Layer → Option Size → Encoding α → Prop
  | here {c d : Encoding α} {id : String} {l : Layer} {canvas : Option Size}
      (hl : c.state.child? id = some l) (hd : c.Renders l canvas d) : Reaches c [id] l canvas d
  | there {c c' d : Encoding α} {id : String} {k l : Layer} {below canvas : Option Size}
      {rest : List String} (hk : c.state.child? id = some k) (hc : c.Renders k below c')
      (h : Reaches c' rest l canvas d) : Reaches c (id :: rest) l canvas d

/-- What is reached is written by an encoding on the way. -/
theorem Reaches.exists_renders {canvas : Option Size} (h : c.Reaches path l canvas d) :
    ∃ c', Relation.ReflTransGen Makes c c' ∧ c'.Renders l canvas d := by
  induction h with
  | here hl hd => exact ⟨_, .refl, hd⟩
  | there hk hc h ih =>
      obtain ⟨c', hmakes, hrenders⟩ := ih
      exact ⟨c', .head hc.makes hmakes, hrenders⟩

theorem Renders.layerList_eq {canvas : Option Size} (h : c.Renders l canvas d) :
    d.state.layerList = l.state.layerList := by
  obtain ⟨-, -, -, q, size, -, -, rfl⟩ := h
  rfl

theorem Renders.options_eq {canvas : Option Size} (h : c.Renders l canvas d) :
    d.options = { scale := c.options.scale } := by
  obtain ⟨-, -, -, q, size, -, -, rfl⟩ := h
  rfl

/-- The scale is passed down. -/
theorem Reaches.options_eq {canvas : Option Size} (h : c.Reaches path l canvas d) :
    d.options = { scale := c.options.scale } := by
  induction h with
  | here hl hd => exact hd.options_eq
  | there hk hc h ih => rw [ih, hc.options_eq]

/-- Whether the path of an encoding is written with a chain of filters. -/
def Writes (c : Encoding α) (fs : List Filter) : Prop :=
  ∃ front, c.Parts front fs ∧ c.path = .ok (String.intercalate "/"
    (front ++ filterSegment fs ++ [ImagePath.encode c.imagePath]))

/-- The images in the chain of a path are the layers, on the canvas that they are told. -/
theorem Writes.images {fs : List Filter} {inside : Option Size} (h : c.Writes fs)
    (hinside : c.inside = .ok inside) (hextra : c.options.extraFilters = []) :
    layerFilters inside c.options.scale c.state.layerList = .ok (fs.filter Filter.isImage) := by
  obtain ⟨front, ⟨-, inside', hinside', hfs⟩, -⟩ := h
  obtain rfl := Except.ok.inj (hinside.symm.trans hinside')
  exact State.images_of_filters hextra hfs

/-- The path of a layer stands in the path of what is rendered below it. -/
theorem Makes.stands {t : String} (h : c.Makes d) (ht : c.path = .ok t) :
    ∃ sub, d.path = .ok sub ∧ ("image(/" ++ sub ++ ",").toList <:+: t.toList := by
  obtain ⟨front, fs, hparts, rfl⟩ := parts_of_path ht
  obtain ⟨sub, rest, hsub, -, hmem⟩ := hparts.filter_of_makes h
  refine ⟨sub, hsub, ?_⟩
  have hfilter : ("image(/" ++ sub ++ ",").toList <:+:
      (Filter.text ⟨"image", "/" ++ sub ++ "," ++ rest⟩).toList :=
    ⟨[], (rest ++ ")").toList, by simp [Filter.text]⟩
  have hchain : (Filter.text ⟨"image", "/" ++ sub ++ "," ++ rest⟩).toList <:+:
      (Filter.chainWord ++ Filter.chainText fs).toList := by
    rw [String.toList_append]
    exact (infix_intercalate (List.mem_map_of_mem hmem)).trans (List.suffix_append _ _).isInfix
  have hsegment : Filter.chainWord ++ Filter.chainText fs ∈
      front ++ filterSegment fs ++ [ImagePath.encode c.imagePath] := by
    rw [filterSegment, if_neg (by simp [List.ne_nil_of_mem hmem])]
    simp
  exact hfilter.trans (hchain.trans (infix_intercalate hsegment))

/-- What is reached stands in the path that it is reached from. -/
theorem Reaches.stands {canvas : Option Size} {t : String} (h : c.Reaches path l canvas d)
    (ht : c.path = .ok t) : ∃ sub, d.path = .ok sub ∧
      ("image(/" ++ sub ++ ",").toList <:+: t.toList := by
  induction h generalizing t with
  | here hl hd => exact hd.makes.stands ht
  | there hk hc h ih =>
      -- What stands in the path of the next layer stands in that of this one.
      obtain ⟨inner, hinner, hin⟩ := hc.makes.stands ht
      obtain ⟨sub, hsub, hstands⟩ := ih hinner
      refine ⟨sub, hsub, hstands.trans (List.IsInfix.trans ?_ hin)⟩
      exact ⟨"image(/".toList, ",".toList, by simp⟩

/-- Every path is written, if it is done without rounding. -/
theorem exists_writes (c : Encoding Rat) : ∃ fs, c.Writes fs := by
  obtain ⟨t, ht⟩ := Params.succeeds_path (fun inside => succeeds_layerFilters c.options.scale
    c.state.layerList inside) c.imagePath c.natural c.options c.isLayer c.canvas
  obtain ⟨front, fs, hparts, rfl⟩ := parts_of_path ht
  exact ⟨fs, front, hparts, ht⟩

end Encoding

/-- Whether all layers on the way along a path show. -/
def State.Shows (s : State) (path : List String) : Prop :=
  ∀ q m, q <+: path → s.layerAt? q = some m → m.props.visible = true

section

variable {s : State} {id : String} {rest : List String} {k : Layer}

theorem State.Shows.child (h : s.Shows (id :: rest)) (hk : s.child? id = some k) :
    k.props.visible = true :=
  h [id] k (List.prefix_append [id] rest) hk

theorem State.Shows.below (h : s.Shows (id :: rest)) (hk : s.child? id = some k) :
    k.state.Shows rest := by
  intro q m hq hm
  refine h (id :: q) m (List.cons_prefix_cons.mpr ⟨rfl, hq⟩) ?_
  rw [layerAt?_cons s id (fun hnil => by rw [hnil] at hm; cases hm), hk]
  exact hm

end

namespace Encoding

variable {c d : Encoding Rat} {l : Layer}

/-- A layer that shows is rendered. -/
theorem exists_renders {canvas : Size} (hl : l ∈ c.state.layerList)
    (hvisible : l.props.visible = true) (hinside : c.inside = .ok (some canvas)) :
    ∃ d, c.Renders l (some canvas) d := by
  obtain ⟨q, hq⟩ := l.props.exists_rendersAs l.state.params canvas
  obtain ⟨size, hsize⟩ := q.succeeds_output l.props.originalDimensions (some canvas)
  exact ⟨_, hl, hvisible, hinside, q, size, hq.eq_ok, hsize, rfl⟩

theorem Renders.rendersAs {canvas : Size} (h : c.Renders l (some canvas) d) :
    l.props.RendersAs l.state.params canvas d.state.params := by
  obtain ⟨-, -, -, q, size, hq, hsize, rfl⟩ := h
  obtain ⟨q', hq'⟩ := l.props.exists_rendersAs l.state.params canvas
  obtain rfl := Except.ok.inj (hq.symm.trans hq'.eq_ok)
  exact hq'

/-- What a layer is rendered by tells the layers on it the size that the settings of the layer have
    on its canvas. -/
theorem Renders.inside_eq_output {canvas : Size} (h : c.Renders l (some canvas) d) :
    d.inside =
      some <$> l.state.params.output Rat l.props.originalDimensions (some canvas) := by
  have hrendered := h.rendersAs
  obtain ⟨-, -, -, q, size, -, hsize, rfl⟩ := h
  rw [← hrendered.output (some canvas), hsize]
  rfl

/-- The canvas that is passed down along a path is the one that is found by following it. -/
theorem exists_reaches {path : List String} {s : State} {size k : Size} {below : Option Size}
    (hl : s.layerAt? path = some l) (hshows : s.Shows path)
    (hlayers : c.state.layerList = s.layerList) (hinside : c.inside = .ok (some k))
    (hk : s.params.output Rat size below = .ok k) :
    ∃ canvas d, c.Reaches path l (some canvas) d ∧
      s.canvasAlong Rat size below path = .ok canvas := by
  -- The encoding need not have the settings of the state: all that the step down needs is that
  -- both come to the size `k`.
  induction path generalizing s c size k below with
  | nil => cases hl
  | cons id rest ih =>
      have hchild : ∀ {m}, s.child? id = some m → c.state.child? id = some m := by
        intro m hm
        rwa [State.child?, hlayers]
      have hmem : ∀ {m}, s.child? id = some m → m ∈ c.state.layerList := fun hm =>
        List.mem_of_find?_eq_some (hchild hm)
      cases rest with
      | nil =>
          obtain ⟨d, hd⟩ := exists_renders (hmem hl) (hshows.child hl) hinside
          exact ⟨k, d, .here (hchild hl) hd, hk⟩
      | cons next rest =>
          obtain ⟨m, hm, hl⟩ := Option.bind_eq_some_iff.mp hl
          obtain ⟨c', hc'⟩ := exists_renders (hmem hm) (hshows.child hm) hinside
          obtain ⟨size', hsize'⟩ :=
            m.state.params.succeeds_output m.props.originalDimensions (some k)
          have hinside' := hc'.inside_eq_output
          rw [hsize'] at hinside'
          obtain ⟨canvas, d, hreaches, halong⟩ :=
            ih hl (hshows.below hm) hc'.layerList_eq hinside' hsize'
          refine ⟨canvas, d, .there (hchild hm) hc' hreaches, ?_⟩
          rw [State.canvasAlong, hk]
          · simp only [hm]
            exact halong
          · exact List.cons_ne_nil _ _

/-- Whether two encodings of what has settings on a canvas agree: on the size that they tell the
    layers on top, on the filters of those layers, and on the pixels of axes that follow the
    canvas. -/
structure Agrees (own d : Encoding Rat) (p : Params) (canvas : Size) : Prop where
  inside : ∃ size, own.inside = .ok (some size) ∧ d.inside = .ok (some size)
  images : ∃ fs gs, own.Writes fs ∧ d.Writes gs ∧
    fs.filter Filter.isImage = gs.filter Filter.isImage
  width : p.widthFull = some true →
    own.state.params.width = some (Params.filled canvas.width (p.widthFullOffset.getD 0)) ∧
      d.state.params.width = some (Params.filled canvas.width (p.widthFullOffset.getD 0))
  height : p.heightFull = some true →
    own.state.params.height = some (Params.filled canvas.height (p.heightFullOffset.getD 0)) ∧
      d.state.params.height = some (Params.filled canvas.height (p.heightFullOffset.getD 0))

end Encoding

/-! ## The layer on its own -/

namespace Editor

/-- The encoding of a layer on its own, on the canvas that it lies on. -/
def ownEncoding (e : Editor) (l : Layer) (canvas : Size) : Encoding Rat :=
  ⟨l.state.resolveFill (some canvas), l.props.imagePath, some l.props.originalDimensions,
    { previewFormat := e.settings.previewFormat, scale := 1 }, false, none⟩

theorem contextEncoding_eq {e : Editor} {l : Layer} {canvas : Size}
    (hl : e.root.layerAt? e.path = some l) (hpath : e.path ≠ [])
    (hbelow : e.root.canvasBelow Rat e.size e.path = .ok (some canvas)) :
    e.contextEncoding Rat = .ok (e.ownEncoding l canvas) := by
  have hlayer : e.currentLayer = .ok l := by rw [currentLayer, hl]
  have hcurrent : e.current = .ok l.state := by
    rw [current, State.stateAt?_eq_map_layerAt? e.root hpath, hl]
    rfl
  have hsize : e.currentSize = .ok l.props.originalDimensions := by
    rw [currentSize, if_neg (by simp [hpath]), hlayer]
    rfl
  have himage : e.currentImage = .ok l.props.imagePath := by
    rw [currentImage, if_neg (by simp [hpath]), hlayer]
    rfl
  rw [contextEncoding, hcurrent, hsize, hbelow, himage]
  rfl

/-- What renders a layer at full scale agrees with the encoding of the layer on its own. -/
theorem agrees_of_renders (e : Editor) {c d : Encoding Rat} {l : Layer} {canvas : Size}
    (hd : c.Renders l (some canvas) d) (hoptions : d.options = { scale := 1 }) :
    (e.ownEncoding l canvas).Agrees d l.state.params canvas := by
  obtain ⟨size, hsize⟩ := l.state.params.succeeds_output l.props.originalDimensions (some canvas)
  have hinside : (e.ownEncoding l canvas).inside = .ok (some size) := by
    show some <$> (l.state.params.resolveFill (some canvas)).output Rat _ none = _
    rw [Params.output_resolveFill, hsize]
    rfl
  have hinside' : d.inside = .ok (some size) := by
    rw [hd.inside_eq_output, hsize]
    rfl
  obtain ⟨fs, hfs⟩ := (e.ownEncoding l canvas).exists_writes
  obtain ⟨gs, hgs⟩ := d.exists_writes
  have himages : fs.filter Filter.isImage = gs.filter Filter.isImage := by
    have hown := hfs.images hinside rfl
    have hlayers := hgs.images hinside' (by rw [hoptions])
    rw [hoptions, hd.layerList_eq] at hlayers
    exact Except.ok.inj (hown.symm.trans hlayers)
  exact
    { inside := ⟨size, hinside, hinside'⟩
      images := ⟨fs, gs, hfs, hgs, himages⟩
      width := fun hfull =>
        ⟨Params.width_resolveFill canvas hfull, hd.rendersAs.width hfull⟩
      height := fun hfull =>
        ⟨Params.height_resolveFill canvas hfull, hd.rendersAs.height hfull⟩ }

/-- What is edited lies on the canvas that the composition passes down to it, along a path of layers
    that show. The composition writes it with the sizes that it has on its own, and with the same
    layers on top of it. -/
theorem canvas_of_context {e : Editor} {l : Layer} (hl : e.root.layerAt? e.path = some l)
    (hshows : e.root.Shows e.path) :
    ∃ canvas own d,
      e.root.canvasBelow Rat e.size e.path = .ok (some canvas) ∧
      e.contextEncoding Rat = .ok own ∧
      (e.baseEncoding Rat).Reaches e.path l (some canvas) d ∧
      (∃ t sub, (e.baseEncoding Rat).path = .ok t ∧ d.path = .ok sub ∧
        ("image(/" ++ sub ++ ",").toList <:+: t.toList) ∧
      own.Agrees d l.state.params canvas := by
  have hpath : e.path ≠ [] := fun hnil => by rw [hnil] at hl; cases hl
  obtain ⟨k, hk⟩ := e.root.params.succeeds_output e.size none
  have hinside : (e.baseEncoding Rat).inside = .ok (some k) := by
    show some <$> e.root.params.output Rat e.size none = _
    rw [hk]
    rfl
  obtain ⟨canvas, d, hreaches, halong⟩ := Encoding.exists_reaches hl hshows rfl hinside hk
  have hbelow : e.root.canvasBelow Rat e.size e.path = .ok (some canvas) := by
    rw [State.canvasBelow, if_neg (by simp [hpath]), halong]
    rfl
  obtain ⟨t, ht⟩ : ∃ t, (e.baseEncoding Rat).path = .ok t := by
    obtain ⟨_, _, _, ht⟩ := (e.baseEncoding Rat).exists_writes
    exact ⟨_, ht⟩
  obtain ⟨sub, hsub, hstands⟩ := hreaches.stands ht
  obtain ⟨c, -, hrenders⟩ := hreaches.exists_renders
  exact ⟨canvas, _, d, hbelow, contextEncoding_eq hl hpath hbelow, hreaches,
    ⟨t, sub, ht, hsub, hstands⟩, e.agrees_of_renders hrenders hreaches.options_eq⟩

/-- A label as high as its canvas, with a mark on it. -/
def label : Layer :=
  ⟨{ id := "label", imagePath := "label.png", originalDimensions := ⟨80, 40⟩ },
    some ⟨{ heightFull := some true },
      some [⟨{ id := "mark", imagePath := "mark.png", originalDimensions := ⟨8, 8⟩ }, none⟩]⟩⟩

/-- The label on a frame that is cropped, fitted in and turned, as wide as its canvas but for a
    gap. -/
def frame : Layer where
  props := { id := "frame", imagePath := "frame.png", originalDimensions := ⟨800, 300⟩ }
  transforms :=
    some
      { params :=
          { widthFull := some true, widthFullOffset := some 20, fitIn := some true
            rotation := some 90
            cropLeft := some 0, cropTop := some 0, cropWidth := some 400, cropHeight := some 100 }
        layers := some [label] }

/-- The label on the frame on a photo with a border. -/
def labeled : Editor :=
  { start {} "photo.jpg" ⟨200, 100⟩ none with
    root :=
      { params :=
          { fillColor := some "white"
            paddingTop := some 10, paddingRight := some 10
            paddingBottom := some 10, paddingLeft := some 10 }
        layers := some [frame] }
    context := .ofPath ["frame", "label"] }

/-- The label is as high as the turned frame, on its own and on the photo. -/
theorem canvas_of_context_labeled :
    labeled.root.canvasBelow Rat labeled.size labeled.path = .ok (some ⟨50, 200⟩) ∧
    ∃ own d, labeled.contextEncoding Rat = .ok own ∧
      (labeled.baseEncoding Rat).Reaches labeled.path label (some ⟨50, 200⟩) d ∧
      own.state.params.height = some 200 ∧ d.state.params.height = some 200 := by
  have hshows : labeled.root.Shows labeled.path := by
    intro q m hq hm
    have hq : q ∈ [[], ["frame"], ["frame", "label"]] := (List.mem_inits q _).mpr hq
    fin_cases hq
    · cases hm
    · cases hm
      rfl
    · cases hm
      rfl
  have hbelow : labeled.root.canvasBelow Rat labeled.size labeled.path = .ok (some ⟨50, 200⟩) :=
    of_toOption_eq_some (by decide +kernel)
  obtain ⟨canvas, own, d, hcanvas, hown, hreaches, -, hagrees⟩ :=
    canvas_of_context (e := labeled) (l := label) rfl hshows
  obtain rfl := Option.some.inj (Except.ok.inj (hcanvas.symm.trans hbelow))
  exact ⟨hbelow, own, d, hown, hreaches, hagrees.height rfl⟩

end Editor

end Retouch
