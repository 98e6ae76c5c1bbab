/-
  What a shared fragment shows.

  Settings that a fragment leaves out do nothing, except one: an image that is fitted into its
  size is filled into it instead.  So a shared state shows the same picture if it is not fitted in
  (`Params.path_significant`), and otherwise another one, unless the alignment spells the missing
  segment (`Params.path_significant_ne`).
-/
import Retouch.Path.Encode
import Retouch.Proofs.Fragment.ReadBack
import Retouch.Proofs.Path.Segments

namespace Retouch

/-! ## Left out values do nothing -/

section

variable {α : Type} [Scalar α] {p : Params}

theorem filter_ne_false_eq_true {o : Option Bool} :
    o.filter (· ≠ false) = some true ↔ o = some true := by
  cases o with
  | none => simp
  | some b => cases b <;> simp

theorem markFilter_filter (name : String) (o : Option Bool) :
    markFilter name (o.filter (· ≠ false)) = markFilter name o := by
  unfold markFilter
  simp only [filter_ne_false_eq_true]

theorem amountFilter_filter (name : String) (o : Option Float) (f : Float → Float) :
    amountFilter name (o.filter (! · == 0.0)) f = amountFilter name o f := by
  cases o with
  | none => rfl
  | some x =>
      by_cases hx : (x == 0.0) = true
      · simp [amountFilter, Option.filter, hx]
      · simp [amountFilter, Option.filter, hx]

theorem countFilter_filter (name : String) (o : Option Int) :
    countFilter name (o.filter (· ≠ 0)) = countFilter name o := by
  have hwanted : Params.wanted (o.filter (· ≠ 0)) = Params.wanted o := by
    unfold Params.wanted
    rw [Option.filter_filter]
    simp
  unfold countFilter
  rw [hwanted]

namespace Params

theorem frontFilters_significant (p : Params) (scale : α) :
    p.significant.frontFilters scale = p.frontFilters scale := by
  unfold frontFilters significant
  simp only [amountFilter_filter, markFilter_filter, countFilter_filter]

theorem filters_significant (p : Params) (o : EncodeOptions α) (isLayer : Bool)
    (inner : Except Failure (List Filter)) :
    p.significant.filters o isLayer inner = p.filters o isLayer inner := by
  unfold filters
  rw [frontFilters_significant]
  rfl

theorem fitIn_significant (h : p.fitIn ≠ some true) : p.significant.fitIn = p.fitIn := by
  show p.fitIn.filter (· ≠ true) = p.fitIn
  cases hfit : p.fitIn with
  | none => rfl
  | some b =>
      cases b with
      | true => exact absurd hfit h
      | false => rfl

theorem resized_significant (h : p.fitIn ≠ some true) (natural : Size) (canvas : Option Size) :
    p.significant.resized α natural canvas = p.resized α natural canvas := by
  unfold resized
  rw [fitIn_significant h]
  rfl

theorem turned_significant (p : Params) (size : Size) :
    p.significant.turned size = p.turned size := by
  have hquarter : ∀ n : Int, n ≠ 0 → (p.rotation.filter (· ≠ 0) = some n ↔
      p.rotation = some n) := by
    intro n hn
    rw [Option.filter_eq_some_iff]
    simp only [decide_eq_true_eq]
    exact ⟨fun h => h.1, fun h => ⟨h, hn⟩⟩
  unfold turned
  show (if p.rotation.filter (· ≠ 0) = some 90 ∨ p.rotation.filter (· ≠ 0) = some 270 then _
    else _) = _
  simp only [hquarter 90 (by decide), hquarter 270 (by decide)]

theorem output_significant (h : p.fitIn ≠ some true) (natural : Size) (canvas : Option Size) :
    p.significant.output α natural canvas = p.output α natural canvas := by
  unfold output
  rw [resized_significant h]
  simp only [turned_significant]
  rfl

theorem canvasOutput_significant (h : p.fitIn ≠ some true) (natural : Size)
    (canvas : Option Size) :
    p.significant.canvasOutput α natural canvas = p.canvasOutput α natural canvas := by
  unfold canvasOutput
  rw [output_significant h]
  rfl

theorem scaledTarget_significant (h : p.fitIn ≠ some true) (natural : Option Size) (scale : α) :
    p.significant.scaledTarget natural scale = p.scaledTarget natural scale := by
  unfold scaledTarget
  simp only [resized_significant h]
  rfl

theorem sizeSegment_significant (p : Params) (width height : Option Int)
    (padding : Option (Sides Int)) :
    p.significant.sizeSegment width height padding = p.sizeSegment width height padding := by
  unfold sizeSegment extentText significant
  simp only [filter_ne_false_eq_true]

theorem frontSegments_significant (h : p.fitIn ≠ some true) (width height : Option Int)
    (padding : Option (Sides Int)) :
    p.significant.frontSegments width height padding = p.frontSegments width height padding := by
  have hstretch : p.significant.stretch = some true ↔ p.stretch = some true :=
    filter_ne_false_eq_true
  have hsmart : p.significant.smart = some true ↔ p.smart = some true :=
    filter_ne_false_eq_true
  unfold frontSegments alignSegments
  simp only [sizeSegment_significant, fitIn_significant h, hstretch, hsmart]
  rfl

/-- Settings that are not fitted in have the path of their significant part. -/
theorem path_significant (h : p.fitIn ≠ some true) (imagePath : String) (natural : Option Size)
    (o : EncodeOptions α) (isLayer : Bool) (canvas : Option Size)
    (inner : Option Size → Except Failure (List Filter)) :
    p.significant.path imagePath natural o isLayer canvas inner =
      p.path imagePath natural o isLayer canvas inner := by
  unfold path
  simp only [scaledTarget_significant h, filters_significant, output_significant h,
    frontSegments_significant h]
  rfl

end Params

end

/-! ## The segment of the fit -/

namespace ImagePath

/-- The segment of an image that is fitted in. -/
def fitWord : String := "fit-in"

theorem startsWith_false_of_head {text : String} (h : ∀ c ∈ text.toList.head?, c ≠ 'f') :
    startsWith fitWord text = false := by
  unfold startsWith
  cases htext : text.toList with
  | nil => rfl
  | cons c r =>
      have hc : c ≠ 'f' := h c (by rw [htext]; rfl)
      show ('f' == c && _) = false
      rw [beq_eq_false_iff_ne.mpr (Ne.symm hc), Bool.false_and]

/-- A word without a slash stands in front of a segment if it stands, as a segment, in front of
what the segment begins. -/
theorem word_of_append_slash {word segment rest : List Char} (hword : '/' ∉ word)
    (h : word ++ ['/'] <+: segment ++ '/' :: rest) : word <+: segment := by
  induction word generalizing segment with
  | nil => exact List.nil_prefix
  | cons c word ih =>
      simp only [List.mem_cons, not_or] at hword
      cases segment with
      | nil => exact absurd (List.cons_prefix_cons.mp h).1.symm hword.1
      | cons d segment =>
          obtain ⟨rfl, htail⟩ := List.cons_prefix_cons.mp h
          exact List.cons_prefix_cons.mpr ⟨rfl, ih hword.2 htail⟩

/-- An encoded image is not taken for the segment of the fit. -/
theorem startsWith_encode (imagePath : String) :
    startsWith "fit-in/" (encode imagePath) = false := by
  rcases encode_cases imagePath with ⟨hverbatim, heq⟩ | ⟨-, cs, heq, -⟩
  · rw [heq]
    exact not_startsWith_of_verbatim hverbatim (by decide)
  · rw [heq, startsWith, String.toList_append]
    rfl

/-- Joined segments begin with the segment of the fit only if one of them does. -/
theorem startsWith_intercalate {ys : List String} {image : String}
    (hys : ∀ y ∈ ys, startsWith fitWord y = false) (himage : startsWith "fit-in/" image = false) :
    startsWith "fit-in/" (String.intercalate "/" (ys ++ [image])) = false := by
  cases ys with
  | nil => rwa [List.nil_append, String.intercalate_singleton]
  | cons y ys =>
      rw [List.cons_append, String.intercalate_cons_of_ne_nil (by simp)]
      by_contra hstart
      rw [Bool.not_eq_false] at hstart
      have hstart : "fit-in".toList ++ ['/'] <+:
          y.toList ++ '/' :: (String.intercalate "/" (ys ++ [image])).toList := by
        have hfront := List.isPrefixOf_iff_prefix.mp hstart
        rw [String.toList_append, String.toList_append, List.append_assoc] at hfront
        exact hfront
      have hword : startsWith fitWord y = true :=
        List.isPrefixOf_iff_prefix.mpr (word_of_append_slash (by decide) hstart)
      exact Bool.false_ne_true ((hys y List.mem_cons_self).symm.trans hword)

end ImagePath

namespace Params

/-- What is made of numbers is not the segment of the fit. -/
theorem startsWith_measure {y : String} (h : Text.Measure y) :
    ImagePath.startsWith ImagePath.fitWord y = false := by
  refine ImagePath.startsWith_false_of_head fun c hc => ?_
  rintro rfl
  exact h.notMem (by decide) (by decide) (List.mem_of_mem_head? hc)

theorem startsWith_filterSegment {fs : List Filter} {y : String} (hy : y ∈ filterSegment fs) :
    ImagePath.startsWith ImagePath.fitWord y = false := by
  unfold filterSegment at hy
  split at hy
  · cases hy
  · rw [List.mem_singleton.mp hy]
    unfold ImagePath.startsWith
    rw [String.toList_append]
    rfl

section

variable {α : Type} [Scalar α] {p : Params} {imagePath t : String} {natural : Option Size}
  {o : EncodeOptions α} {isLayer : Bool} {canvas : Option Size}
  {inner : Option Size → Except Failure (List Filter)}

/-- Whether an alignment begins like the segment of the fit. -/
def AlignsFit (p : Params) : Prop :=
  ∃ word, (p.hAlign = some word ∨ p.vAlign = some word) ∧
    ImagePath.startsWith ImagePath.fitWord word = true

/-- The segments behind those of the crop and the fit. -/
def innerSegments (p : Params) (width height : Option Int) (padding : Option (Sides Int)) :
    List String :=
  (if p.stretch = some true then ["stretch"] else []) ++ p.sizeSegment width height padding ++
    paddingSegment padding ++ p.alignSegments ++ (if p.smart = some true then ["smart"] else [])

theorem frontSegments_eq (p : Params) (width height : Option Int)
    (padding : Option (Sides Int)) :
    p.frontSegments width height padding = p.cropSegment ++
      ((if p.fitIn = some true then [ImagePath.fitWord] else []) ++
        p.innerSegments width height padding) := by
  unfold frontSegments innerSegments ImagePath.fitWord
  simp only [List.append_assoc]

theorem startsWith_innerSegments (halign : ¬ p.AlignsFit) {width height : Option Int}
    {padding : Option (Sides Int)} {y : String}
    (hy : y ∈ p.innerSegments width height padding) :
    ImagePath.startsWith ImagePath.fitWord y = false := by
  have hword : p.hAlign = some y ∨ p.vAlign = some y →
      ImagePath.startsWith ImagePath.fitWord y = false := by
    intro hfield
    by_contra hstart
    exact halign ⟨y, hfield, by simpa using hstart⟩
  unfold innerSegments at hy
  simp only [List.mem_append] at hy
  rcases hy with (((hy | hy) | hy) | hy) | hy
  · split at hy
    · rw [List.mem_singleton.mp hy]
      rfl
    · cases hy
  · exact startsWith_measure (measure_sizeSegment hy)
  · exact startsWith_measure (measure_paddingSegment hy)
  · unfold alignSegments at hy
    split at hy
    · cases hy
    · rcases List.mem_append.mp hy with hy | hy
      · exact hword (.inl (eq_of_mem_wordSegment hy))
      · exact hword (.inr (eq_of_mem_wordSegment hy))
  · split at hy
    · rw [List.mem_singleton.mp hy]
      rfl
    · cases hy

theorem intercalate_cancel (front : List String) {xs ys : List String} (hxs : xs ≠ []) (hys : ys ≠ [])
    (h : String.intercalate "/" (front ++ xs) = String.intercalate "/" (front ++ ys)) :
    String.intercalate "/" xs = String.intercalate "/" ys := by
  by_cases hfront : front = []
  · subst hfront
    exact h
  · rw [String.intercalate_append_of_ne_nil hfront hxs,
      String.intercalate_append_of_ne_nil hfront hys] at h
    exact (String.append_right_inj _).mp h

/-- Settings that are fitted in have another path than their significant part. -/
theorem path_significant_ne (hfit : p.fitIn = some true) (halign : ¬ p.AlignsFit)
    (h : p.path imagePath natural o isLayer canvas inner = .ok t) :
    p.significant.path imagePath natural o isLayer canvas inner ≠ .ok t := by
  intro h'
  obtain ⟨_, -, fs, hfront, -, -, ht⟩ := path_eq_ok h
  obtain ⟨_, -, fs', hfront', -, -, ht'⟩ := path_eq_ok h'
  obtain ⟨width, height, padding, rfl⟩ := front_eq_ok hfront
  obtain ⟨width', height', padding', rfl⟩ := front_eq_ok hfront'
  have hunset : p.significant.fitIn ≠ some true := by
    show p.fitIn.filter (· ≠ true) ≠ some true
    rw [hfit]
    decide
  rw [ht, frontSegments_eq, frontSegments_eq, if_pos hfit, if_neg hunset] at ht'
  -- Behind the crop, which is the same, only one of the paths has the segment of the fit.
  have hrest : String.intercalate "/" (ImagePath.fitWord ::
      (p.innerSegments width height padding ++ filterSegment fs ++
        [ImagePath.encode imagePath])) =
      String.intercalate "/" (p.significant.innerSegments width' height' padding' ++
        filterSegment fs' ++ [ImagePath.encode imagePath]) := by
    have hcrop : p.significant.cropSegment = p.cropSegment := rfl
    refine intercalate_cancel p.cropSegment (by simp) (by simp) ?_
    simpa only [hcrop, List.append_assoc, List.cons_append, List.nil_append] using ht'
  -- The path with the segment begins with it, and no segment of the other one does.
  have hwith : ImagePath.startsWith "fit-in/" (String.intercalate "/" (ImagePath.fitWord ::
      (p.innerSegments width height padding ++ filterSegment fs ++
        [ImagePath.encode imagePath]))) = true := by
    rw [String.intercalate_cons_of_ne_nil (by simp), ImagePath.startsWith, String.toList_append,
      String.toList_append]
    rfl
  have hsegments : ∀ y ∈ p.significant.innerSegments width' height' padding' ++
      filterSegment fs', ImagePath.startsWith ImagePath.fitWord y = false := by
    intro y hy
    rcases List.mem_append.mp hy with hy | hy
    · exact startsWith_innerSegments (p := p.significant) halign hy
    · exact startsWith_filterSegment hy
  rw [hrest, ImagePath.startsWith_intercalate hsegments (ImagePath.startsWith_encode imagePath)]
    at hwith
  exact Bool.false_ne_true hwith

end

end Params

/-! ## Sharing -/

/-- Whether a state shows the same picture as another one, whatever the image and the options. -/
def State.SamePicture (d s : State) : Prop :=
  ∀ (α : Type) [Scalar α],
    (∀ (imagePath : String) (natural : Option Size) (o : EncodeOptions α) (isLayer : Bool)
      (canvas : Option Size), d.path imagePath natural o isLayer canvas =
        s.path imagePath natural o isLayer canvas) ∧
    ∀ (natural : Size) (canvas : Option Size),
      d.params.output α natural canvas = s.params.output α natural canvas ∧
      d.params.canvasOutput α natural canvas = s.params.canvasOutput α natural canvas

/-- Whether a state shows another picture than one that has a picture, whatever the image and the
options. -/
def State.OtherPicture (d s : State) : Prop :=
  ∀ (α : Type) [Scalar α] (imagePath : String) (natural : Option Size) (o : EncodeOptions α)
    (isLayer : Bool) (canvas : Option Size) (t : String),
    s.path imagePath natural o isLayer canvas = .ok t →
      d.path imagePath natural o isLayer canvas ≠ .ok t

namespace Fragment

/-- The state that a shared fragment is opened as: nothing is asked for if it is empty. -/
def opened (fragment : String) (issued : ℕ) : Except Failure (Option State) × ℕ :=
  if fragment = "" then (.ok (some .empty), issued) else open? fragment issued

theorem valid_withoutVisualCrop {s : State} (h : s.Valid) : s.withoutVisualCrop.Valid := by
  obtain ⟨p, layers⟩ := s
  have hp : p.withoutVisualCrop.Valid false := ⟨h.params.rotation, fun h => (by cases h)⟩
  cases layers with
  | none => exact hp
  | some ls => exact ⟨hp, h.2⟩

theorem short_withoutVisualCrop {s : State} (h : s.Short) : s.withoutVisualCrop.Short := by
  obtain ⟨p, layers⟩ := s
  have hp : p.withoutVisualCrop.Short := by
    intro f v hv
    by_cases hf : f = .visualCropEnabled
    · subst hf
      cases hv
    · have hsame : p.withoutVisualCrop.get f = p.get f := by
        cases f <;> first | rfl | exact absurd rfl hf
      exact h.params f v (hsame ▸ hv)
  cases layers with
  | none => exact hp
  | some ls => exact ⟨hp, h.2⟩

/-- A shared state is opened as its significant part, without the mark of editing the crop. -/
theorem opened_share {s : State} (hvalid : s.Valid) (hshort : s.Short) (issued : ℕ) :
    opened (share s) issued = (.ok (some s.withoutVisualCrop.significant), issued) := by
  have hvalid := valid_withoutVisualCrop hvalid
  have hshort := short_withoutVisualCrop hshort
  unfold opened
  split
  · rename_i hempty
    rw [significant_eq_empty hvalid hshort hempty]
  · rename_i hne
    have hread := decode_encode hvalid hshort issued hne
    unfold open?
    rw [show share s = encode s.withoutVisualCrop from rfl, hread]
    rfl

/-- A state that is not fitted in is opened as one that shows the same picture; one that is fitted
in loses the fit, and shows another picture unless an alignment begins like the missing segment. -/
theorem share_shows {s : State} (hvalid : s.Valid) (hshort : s.Short) (issued : ℕ) :
    ∃ d, opened (share s) issued = (.ok (some d), issued) ∧
      (s.params.fitIn ≠ some true → d.SamePicture s) ∧
      (s.params.fitIn = some true → d.params.fitIn = none ∧
        (¬ s.params.AlignsFit → d.OtherPicture s)) := by
  refine ⟨s.withoutVisualCrop.significant, opened_share hvalid hshort issued, ?_, ?_⟩
  · intro hfit α _
    have hfit : s.params.withoutVisualCrop.fitIn ≠ some true := hfit
    refine ⟨fun imagePath natural o isLayer canvas => ?_, fun natural canvas => ⟨?_, ?_⟩⟩
    · exact Params.path_significant hfit imagePath natural o isLayer canvas _
    · exact Params.output_significant hfit natural canvas
    · exact Params.canvasOutput_significant hfit natural canvas
  · intro hfit
    refine ⟨?_, ?_⟩
    · show s.params.fitIn.filter (· ≠ true) = none
      rw [hfit]
      rfl
    · intro halign α _ imagePath natural o isLayer canvas t ht
      have hfit : s.params.withoutVisualCrop.fitIn = some true := hfit
      exact Params.path_significant_ne hfit halign ht

/-- An image that is fitted into its size is opened as one that is not. -/
theorem share_shows_fitted : ∃ d,
    opened (share ⟨{ width := some 800, height := some 600, fitIn := some true }, none⟩) 0 =
      (.ok (some d), 0) ∧
    d.params.fitIn = none ∧
    d.OtherPicture ⟨{ width := some 800, height := some 600, fitIn := some true }, none⟩ := by
  obtain ⟨d, hopened, -, hother⟩ := share_shows
    (s := ⟨{ width := some 800, height := some 600, fitIn := some true }, none⟩)
    ⟨fun _ h => (by cases h), fun h => (by cases h)⟩
    (fun f v hv => by
      cases f with
      | width => cases hv; show (Number.natText 800).length ≤ Number.digitLimit; decide
      | height => cases hv; show (Number.natText 600).length ≤ Number.digitLimit; decide
      | fitIn => cases hv; trivial
      | _ => cases hv) 0
  obtain ⟨hunset, hshow⟩ := hother rfl
  refine ⟨d, hopened, hunset, hshow ?_⟩
  rintro ⟨word, h | h, -⟩ <;> cases h

end Fragment

end Retouch
