/-
  What request paths are made of.

  A path is a list of segments joined by slashes: those of the settings, the chain of filters, and
  the image (`Params.path_eq_ok`).  No number, no position and no written image has a parenthesis,
  so parentheses only stand around the arguments of filters (`flat_encode`).
-/
import Retouch.Path.Encode
import Retouch.Proofs.Bytes.ReadBack
import Retouch.Proofs.Number.Numeric
import Retouch.Proofs.Path.Chain
import Retouch.Proofs.Result

namespace Retouch

open Text

/-! ## Texts without parentheses -/

namespace Text

/-- Numbers have no parenthesis. -/
theorem flat_of_numeric {s : String} (h : Number.Numeric s) : Flat s := by
  intro c hc
  constructor
  · rintro rfl
    exact h.notMem (by decide) (by decide) hc
  · rintro rfl
    exact h.notMem (by decide) (by decide) hc

/-- Whether a text is made of digits and of the marks between the numbers of a size. -/
def Measure (s : String) : Prop :=
  ∀ c ∈ s.toList, Number.isDigit c = true ∨ c ∈ ['-', 'x', ':']

instance (s : String) : Decidable (Measure s) := List.decidableBAll _ _

variable {s t : String}

theorem Measure.append (hs : Measure s) (ht : Measure t) : Measure (s ++ t) := by
  intro c hc
  rw [String.toList_append] at hc
  exact (List.mem_append.mp hc).elim (hs c) (ht c)

theorem Measure.notMem (h : Measure s) {c : Char} (hdigit : Number.isDigit c = false)
    (hmark : c ∉ ['-', 'x', ':']) : c ∉ s.toList := fun hc =>
  (h c hc).elim (fun hc => Bool.false_ne_true (hdigit.symm.trans hc)) hmark

theorem Measure.flat (h : Measure s) : Flat s := by
  intro c hc
  constructor
  · rintro rfl
    exact h.notMem (by decide) (by decide) hc
  · rintro rfl
    exact h.notMem (by decide) (by decide) hc

end Text

namespace Number

theorem measure_intText (n : Int) : Measure (intText n) := by
  have hdigits : ∀ k, Measure (natText k) := by
    intro k c hc
    rw [natText, String.toList_ofList] at hc
    exact .inl (isDigit_of_mem_toDigits hc)
  unfold intText
  split
  · exact Measure.append (by decide) (hdigits _)
  · exact hdigits _

theorem flat_intText (n : Int) : Flat (intText n) := (measure_intText n).flat

theorem flat_plainText (x : Float) : Flat (Layout.plain.text x) := by
  rcases text_cases .plain x with hword | hnumeric
  · have hwords : ∀ s ∈ ["nan", "inf", "-inf"], Flat s := by decide
    exact hwords _ hword
  · exact flat_of_numeric hnumeric

theorem flat_pathText (n : Number) : Flat n.pathText := by
  unfold pathText
  split
  · exact flat_intText _
  · exact flat_plainText _

end Number

theorem Position.flat_text (p : Position) : Flat p.text := by
  have hside : ∀ side : Side, Flat side.name := fun side => by cases side <;> decide
  unfold Position.text
  cases p with
  | absolute px =>
      show Flat (Value.ofNumber px.normalize).plainText
      cases px.normalize with
      | int n => exact Number.flat_intText n
      | float x => exact Number.flat_plainText x
  | aligned side outside =>
      cases outside with
      | zero => exact hside side
      | succ n =>
          have hcount := flat_of_numeric (Number.numeric_natText (n + 1))
          exact ((hside side).append (by decide)).append hcount
  | centered => decide

theorem Blend.flat_name (b : Blend) : Flat b.name := by
  cases b <;> decide

namespace ImagePath

theorem symbol_safe {n : Nat} (h : n < 64) :
    Bytes.Alphabet.address.symbol n ∉ ['(', ')', '/'] := by
  have hall : ∀ n < 64, Bytes.Alphabet.address.symbol n ∉ ['(', ')', '/'] := by decide +kernel
  exact hall n h

/-- An image is written verbatim without unsafe characters, or behind `b64:` without slash. -/
theorem encode_cases (imagePath : String) :
    needsEscape imagePath = false ∧ encode imagePath = imagePath ∨
      needsEscape imagePath = true ∧ ∃ cs, encode imagePath = escapeWord ++ String.ofList cs ∧
        ∀ c ∈ cs, c ∉ ['(', ')', '/'] := by
  unfold encode
  cases hescape : needsEscape imagePath with
  | false => exact .inl ⟨rfl, rfl⟩
  | true =>
      refine .inr ⟨rfl, _, rfl, fun c hc => ?_⟩
      obtain ⟨n, hn, rfl⟩ := Bytes.symbol_of_mem_dropPadding hc
      exact symbol_safe hn

/-- What is written verbatim has no unsafe character. -/
theorem safe_of_verbatim {imagePath : String} (h : needsEscape imagePath = false) :
    ∀ c ∈ imagePath.toList, c ∉ unsafeChars := by
  intro c hc hunsafe
  unfold needsEscape at h
  rw [Bool.or_eq_false_iff] at h
  exact List.any_eq_false.mp h.1 c hc (List.contains_iff_mem.mpr hunsafe)

/-- What is written as it is begins with none of the words. -/
theorem not_startsWith_of_verbatim {imagePath word : String} (h : needsEscape imagePath = false)
    (hword : word ∈ reservedWords) : startsWith word imagePath = false := by
  unfold needsEscape at h
  exact Bool.eq_false_iff.mpr (List.any_eq_false.mp (Bool.or_eq_false_iff.mp h).2 word hword)

theorem flat_encode (imagePath : String) : Flat (encode imagePath) := by
  rcases encode_cases imagePath with ⟨hverbatim, heq⟩ | ⟨-, cs, heq, hcs⟩
  · rw [heq]
    intro c hc
    have hsafe := safe_of_verbatim hverbatim c hc
    constructor
    · rintro rfl
      exact hsafe (by decide)
    · rintro rfl
      exact hsafe (by decide)
  · rw [heq]
    refine Flat.append (by decide) fun c hc => ?_
    rw [String.toList_ofList] at hc
    have hsafe := hcs c hc
    constructor
    · rintro rfl
      exact hsafe (by decide)
    · rintro rfl
      exact hsafe (by decide)

end ImagePath

/-! ## Segments -/

namespace Params

variable {p : Params} {width height : Option Int} {padding : Option (Sides Int)} {y : String}

theorem measure_cropSegment (hy : y ∈ p.cropSegment) : Measure y := by
  unfold cropSegment at hy
  split at hy
  · rw [List.mem_singleton.mp hy]
    have hx : Measure "x" := by decide
    have hpair : ∀ a b, Measure (Number.intText a ++ "x" ++ Number.intText b) := fun a b =>
      ((Number.measure_intText a).append hx).append (Number.measure_intText b)
    exact ((((hpair _ _).append (by decide)).append (Number.measure_intText _)).append hx).append
      (Number.measure_intText _)
  · cases hy

theorem measure_extentText (mirrored : Option Bool) (extent : Option Int) :
    Measure (extentText mirrored extent) := by
  unfold extentText
  refine Measure.append ?_ (Number.measure_intText _)
  split <;> decide

theorem measure_sizeSegment (hy : y ∈ p.sizeSegment width height padding) : Measure y := by
  unfold sizeSegment at hy
  split at hy
  · rw [List.mem_singleton.mp hy]
    exact ((measure_extentText _ _).append (by decide)).append (measure_extentText _ _)
  · cases hy

theorem measure_paddingSegment (hy : y ∈ paddingSegment padding) : Measure y := by
  unfold paddingSegment at hy
  split at hy
  · cases hy
  · rename_i pad
    have hx : Measure "x" := by decide
    have hnear : Measure (Number.intText pad.left ++ "x" ++ Number.intText pad.top) :=
      ((Number.measure_intText _).append hx).append (Number.measure_intText _)
    simp only at hy
    split at hy
    · rwa [List.mem_singleton.mp hy]
    · rw [List.mem_singleton.mp hy]
      exact (((hnear.append (by decide)).append (Number.measure_intText _)).append hx).append
        (Number.measure_intText _)

theorem eq_of_mem_wordSegment {word : Option String} (hy : y ∈ wordSegment word) :
    word = some y := by
  unfold wordSegment at hy
  split at hy
  · split at hy
    · cases hy
    · rw [List.mem_singleton.mp hy]
  · cases hy

/-- The words among the segments. -/
def segmentWords : List String := ["fit-in", "stretch", "smart"]

/-- A segment before the filters is a crop, a size or a padding, one of the words, or an
alignment. -/
theorem mem_frontSegments (hy : y ∈ p.frontSegments width height padding) :
    Measure y ∨ y ∈ segmentWords ∨ p.hAlign = some y ∨ p.vAlign = some y := by
  have hmark : ∀ {mark : Option Bool} {word : String}, word ∈ segmentWords →
      y ∈ (if mark = some true then [word] else []) → y ∈ segmentWords := by
    intro mark word hword hy
    split at hy
    · rwa [List.mem_singleton.mp hy]
    · cases hy
  unfold frontSegments at hy
  simp only [List.mem_append] at hy
  rcases hy with (((((hy | hy) | hy) | hy) | hy) | hy) | hy
  · exact .inl (measure_cropSegment hy)
  · exact .inr (.inl (hmark (by decide) hy))
  · exact .inr (.inl (hmark (by decide) hy))
  · exact .inl (measure_sizeSegment hy)
  · exact .inl (measure_paddingSegment hy)
  · unfold alignSegments at hy
    split at hy
    · cases hy
    · rcases List.mem_append.mp hy with hy | hy
      · exact .inr (.inr (.inl (eq_of_mem_wordSegment hy)))
      · exact .inr (.inr (.inr (eq_of_mem_wordSegment hy)))
  · exact .inr (.inl (hmark (by decide) hy))

end Params

section

variable {α : Type} [Scalar α] {p : Params} {imagePath t : String} {natural : Option Size}
  {o : EncodeOptions α} {isLayer : Bool} {canvas : Option Size}
  {inner : Option Size → Except Failure (List Filter)}

/-- The canvas that the layers of an image lie on: the one given, or else the rendered size. -/
def Params.canvasInside (α : Type) [Scalar α] (p : Params) (natural canvas : Option Size) :
    Except Failure (Option Size) :=
  match canvas, natural with
  | none, some size => some <$> p.output α size none
  | c, _ => pure c

/-- The segments before the filters, at a scale. -/
def Params.front {α : Type} [Scalar α] (p : Params) (natural : Option Size) (scale : α) :
    Except Failure (List String) := do
  let (width, height) ← p.scaledTarget natural scale
  let padding ← p.scaledPadding scale
  return p.frontSegments width height padding

theorem Params.front_eq_ok {front : List String} {scale : α}
    (h : p.front natural scale = .ok front) :
    ∃ width height padding, front = p.frontSegments width height padding := by
  unfold Params.front at h
  obtain ⟨⟨width, height⟩, -, h⟩ := of_bind_eq_ok h
  obtain ⟨padding, -, h⟩ := of_bind_eq_ok h
  cases h
  exact ⟨width, height, padding, rfl⟩

/-- A path is its segments, the filters and the image, joined by slashes. -/
theorem Params.path_eq_ok (h : p.path imagePath natural o isLayer canvas inner = .ok t) :
    ∃ front inside fs, p.front natural o.scale = .ok front ∧
      p.canvasInside α natural canvas = .ok inside ∧
      p.filters o isLayer (inner inside) = .ok fs ∧
      t = String.intercalate "/" (front ++ filterSegment fs ++ [ImagePath.encode imagePath]) := by
  unfold Params.path at h
  obtain ⟨⟨width, height⟩, hsize, h⟩ := of_bind_eq_ok h
  obtain ⟨padding, hpadding, h⟩ := of_bind_eq_ok h
  -- The segments are worked out before the canvas inside, and the filters after it.
  have hfront : p.front natural o.scale = .ok (p.frontSegments width height padding) := by
    unfold Params.front
    rw [hsize]
    show (p.scaledPadding o.scale >>= _) = _
    rw [hpadding]
    rfl
  obtain ⟨inside, hinside, h⟩ : ∃ inside, p.canvasInside α natural canvas = .ok inside ∧
      (do
        let fs ← p.filters o isLayer (inner inside)
        return String.intercalate "/" (p.frontSegments width height padding ++ filterSegment fs ++
          [ImagePath.encode imagePath])) = Except.ok t := by
    cases canvas with
    | some size => exact ⟨some size, rfl, h⟩
    | none =>
        cases natural with
        | none => exact ⟨none, rfl, h⟩
        | some size => exact of_bind_eq_ok h
  obtain ⟨fs, hfs, h⟩ := of_bind_eq_ok h
  cases h
  exact ⟨_, inside, fs, hfront, hinside, hfs, rfl⟩

end

end Retouch
