/-
  Which image a request path is of.

  Escaping loses nothing (`ImagePath.decode_encode`) and leaves no character with a meaning in a
  path (`ImagePath.safe_encode`), and what is escaped has no slash.  So two requests with one path
  have one image, or the image of one of them, written as it is, begins with the last segments of
  the other (`Encoding.image_of_path`).  Escaping excludes the words and the filters among these
  segments, not the measures and the alignments.
-/
import Retouch.Proofs.Path.ReadBack

namespace Retouch

open Text

/-! ## Escaping -/

namespace ImagePath

theorem isAscii_dropPadding (bytes : List UInt8) :
    Bytes.isAscii (Bytes.dropPadding (Bytes.encode .address bytes)) = true := by
  unfold Bytes.isAscii
  exact List.all_eq_true.mpr fun c hc => decide_eq_true (Bytes.plain_of_mem_dropPadding hc).1

/-- An image path is read back from what it is written as. -/
theorem decode_encode (imagePath : String) : decode (encode imagePath) = .ok imagePath := by
  unfold encode
  split
  · have hstart : startsWith escapeWord (escapeWord ++ String.ofList
        (Bytes.dropPadding (Bytes.encode .address (Bytes.ofText imagePath)))) = true := by
      unfold startsWith
      rw [String.toList_append]
      exact List.isPrefixOf_iff_prefix.mpr (List.prefix_append _ _)
    rw [decode, if_pos hstart, String.toList_append, List.drop_left, String.toList_ofList,
      decodeSymbols, isAscii_dropPadding, Bytes.decode?_dropPadding]
    simp only [Bytes.text?_ofText]
    rfl
  · rename_i h
    rw [Bool.not_eq_true] at h
    have hstart : startsWith escapeWord imagePath = false := by
      unfold needsEscape at h
      exact Bool.eq_false_iff.mpr (List.any_eq_false.mp (Bool.or_eq_false_iff.mp h).2 _ (by decide))
    rw [decode, if_neg (by rw [hstart]; decide)]

theorem encode_injective {p q : String} (h : encode p = encode q) : p = q := by
  have hp := decode_encode p
  rw [h, decode_encode] at hp
  exact (Except.ok.inj hp).symm

/-- A path is escaped for one of its characters or for how it begins. -/
theorem needsEscape_iff {imagePath : String} : needsEscape imagePath = true ↔
    (∃ c ∈ imagePath.toList, c ∈ unsafeChars) ∨
      ∃ word ∈ reservedWords, word.toList <+: imagePath.toList := by
  unfold needsEscape startsWith
  simp only [Bool.or_eq_true, List.any_eq_true, List.contains_iff_mem, List.isPrefixOf_iff_prefix]

/-- Whether a character is one of base64 in addresses, without the padding. -/
def IsAddressChar (c : Char) : Prop := c.isAlphanum = true ∨ c = '-' ∨ c = '_'

instance (c : Char) : Decidable (IsAddressChar c) := inferInstanceAs (Decidable (_ ∨ _ ∨ _))

theorem isAddressChar_symbol {n : Nat} (h : n < 64) :
    IsAddressChar (Bytes.Alphabet.address.symbol n) := by
  have hall : ∀ n < 64, IsAddressChar (Bytes.Alphabet.address.symbol n) := by decide +kernel
  exact hall n h

theorem IsAddressChar.notMem_unsafeChars {c : Char} (h : IsAddressChar c) : c ∉ unsafeChars := by
  intro hc
  simp only [unsafeChars, List.mem_cons, List.not_mem_nil, or_false] at hc
  rcases hc with rfl | rfl | rfl | rfl | rfl | rfl | rfl <;> exact absurd h (by decide)

/-- What is escaped stands behind `b64:` in characters of addresses. -/
theorem encode_of_needsEscape {imagePath : String} (h : needsEscape imagePath = true) :
    ∃ cs, encode imagePath = escapeWord ++ String.ofList cs ∧ ∀ c ∈ cs, IsAddressChar c := by
  refine ⟨_, if_pos h, fun c hc => ?_⟩
  obtain ⟨n, hn, rfl⟩ := Bytes.symbol_of_mem_dropPadding hc
  exact isAddressChar_symbol hn

/-- Escaped or not, what is written of a path is safe. -/
theorem safe_encode (imagePath : String) : ∀ c ∈ (encode imagePath).toList, c ∉ unsafeChars := by
  intro c hc
  rcases encode_cases imagePath with ⟨hverbatim, heq⟩ | ⟨hescape, -⟩
  · rw [heq] at hc
    exact safe_of_verbatim hverbatim c hc
  · obtain ⟨cs, heq, hcs⟩ := encode_of_needsEscape hescape
    rw [heq, String.toList_append, String.toList_ofList] at hc
    rcases List.mem_append.mp hc with hword | hc
    · have hword : c ∈ ['b', '6', '4', ':'] := hword
      simp only [List.mem_cons, List.not_mem_nil, or_false] at hword
      rcases hword with rfl | rfl | rfl | rfl <;> decide
    · exact (hcs c hc).notMem_unsafeChars

/-- **Escaping is lossless and safe.**  Every image path is read back from what it is written as,
    so no two are written alike.  What is written has no character with a meaning in a path; it is
    the image path itself, if that has none either and does not begin like a directive, and
    otherwise base64 behind `b64:`. -/
theorem escapes_losslessly (imagePath : String) :
    decode (encode imagePath) = .ok imagePath ∧
      (∀ other, encode other = encode imagePath → other = imagePath) ∧
      (∀ c ∈ (encode imagePath).toList, c ∉ [' ', '?', '#', '&', '(', ')', ',']) ∧
      (encode imagePath = imagePath ∧
          (∀ c ∈ imagePath.toList, c ∉ [' ', '?', '#', '&', '(', ')', ',']) ∧
          (∀ word ∈ reservedWords, ¬ word.toList <+: imagePath.toList) ∨
        ((∃ c ∈ imagePath.toList, c ∈ [' ', '?', '#', '&', '(', ')', ',']) ∨
            ∃ word ∈ reservedWords, word.toList <+: imagePath.toList) ∧
          ∃ cs, encode imagePath = "b64:" ++ String.ofList cs ∧ ∀ c ∈ cs, IsAddressChar c) := by
  refine ⟨decode_encode imagePath, fun other h => encode_injective h, safe_encode imagePath, ?_⟩
  cases hescape : needsEscape imagePath with
  | false =>
      obtain ⟨hsafe, hword⟩ := not_or.mp (mt needsEscape_iff.mpr (Bool.eq_false_iff.mp hescape))
      refine .inl ⟨if_neg (Bool.eq_false_iff.mp hescape), fun c hc hunsafe => ?_,
        fun word hmem hprefix => ?_⟩
      · exact hsafe ⟨c, hc, hunsafe⟩
      · exact hword ⟨word, hmem, hprefix⟩
  | true => exact .inr ⟨needsEscape_iff.mp hescape, encode_of_needsEscape hescape⟩

example : encode "a (1).png" = "b64:YSAoMSkucG5n" ∧ encode "b64:YQ" = "b64:YjY0OllR" := by
  decide +kernel

/-- What holds a slash is not escaped. -/
theorem verbatim_of_slash {imagePath : String} (h : '/' ∈ (encode imagePath).toList) :
    needsEscape imagePath = false ∧ encode imagePath = imagePath := by
  rcases encode_cases imagePath with hverbatim | ⟨-, cs, heq, hcs⟩
  · exact hverbatim
  · rw [heq, String.toList_append, String.toList_ofList] at h
    rcases List.mem_append.mp h with h | h
    · exact absurd h (by decide)
    · exact absurd (List.mem_cons_of_mem _ (List.mem_cons_of_mem _ List.mem_cons_self)) (hcs _ h)

/-- The words among the segments are such words, with the slash behind them. -/
theorem notMem_segmentWords_of_verbatim {y rest : String}
    (h : needsEscape (y ++ "/" ++ rest) = false) : y ∉ Params.segmentWords := by
  intro hword
  have hreserved : y ++ "/" ∈ reservedWords := by
    simp only [Params.segmentWords, List.mem_cons, List.not_mem_nil, or_false] at hword
    rcases hword with rfl | rfl | rfl <;> decide
  have hstart : startsWith (y ++ "/") (y ++ "/" ++ rest) = true := by
    unfold startsWith
    simp only [String.toList_append]
    exact List.isPrefixOf_iff_prefix.mpr (List.prefix_append _ _)
  rw [not_startsWith_of_verbatim h hreserved] at hstart
  cases hstart

end ImagePath

/-! ## Segments in front -/

namespace Params

/-- What stands in front of the image: segments with a slash behind each. -/
def leading (ys : List String) : List Char :=
  ys.flatMap fun y => y.toList ++ ['/']

theorem toList_intercalate (ys : List String) (z : String) :
    (String.intercalate "/" (ys ++ [z])).toList = leading ys ++ z.toList := by
  induction ys with
  | nil => rw [List.nil_append, String.intercalate_singleton]; rfl
  | cons y ys ih =>
      rw [List.cons_append, String.intercalate_cons_of_ne_nil (by simp), String.toList_append,
        String.toList_append, ih]
      simp [leading]

theorem leading_append (xs ys : List String) : leading (xs ++ ys) = leading xs ++ leading ys := by
  unfold leading
  rw [List.flatMap_append]

/-- What stands in front of the image is nothing, or ends with a slash. -/
theorem leading_eq (ys : List String) : leading ys = [] ∨ ∃ r, leading ys = r ++ ['/'] := by
  rcases List.eq_nil_or_concat' ys with rfl | ⟨xs, y, rfl⟩
  · exact .inl rfl
  · refine .inr ⟨leading xs ++ y.toList, ?_⟩
    rw [leading_append]
    simp [leading]

/-- What stands in front of the image is the joined segments and a slash. -/
theorem leading_eq_intercalate {ys : List String} (hne : ys ≠ []) :
    leading ys = (String.intercalate "/" ys).toList ++ ['/'] := by
  obtain ⟨zs, z, rfl⟩ := (List.eq_nil_or_concat' ys).resolve_left hne
  rw [toList_intercalate, leading_append, List.append_assoc]
  simp [leading]

/-- Unless an alignment holds a slash, no segment does. -/
theorem notMem_slash_frontSegments {p : Params} {width height : Option Int}
    {padding : Option (Sides Int)}
    (halign : ∀ w, p.hAlign = some w ∨ p.vAlign = some w → '/' ∉ w.toList) {y : String}
    (hy : y ∈ p.frontSegments width height padding) : '/' ∉ y.toList := by
  rcases mem_frontSegments hy with hmeasure | hword | hword | hword
  · exact hmeasure.notMem (by decide) (by decide)
  · simp only [segmentWords, List.mem_cons, List.not_mem_nil, or_false] at hword
    rcases hword with rfl | rfl | rfl <;> decide
  · exact halign y (.inl hword)
  · exact halign y (.inr hword)

/-- Behind a slash, segments that have none begin. -/
theorem suffix_of_leading {ys : List String} (hys : ∀ y ∈ ys, '/' ∉ y.toList) {u z : List Char}
    (hu : u = [] ∨ ∃ r, u = r ++ ['/']) (h : leading ys = u ++ z) :
    ∃ ds, ds <:+ ys ∧ z = leading ds := by
  induction ys generalizing u with
  | nil =>
      obtain ⟨-, rfl⟩ := List.append_eq_nil_iff.mp h.symm
      exact ⟨[], List.suffix_rfl, rfl⟩
  | cons y ys ih =>
      have hnext : leading (y :: ys) = y.toList ++ '/' :: leading ys := by
        simp [leading]
      rcases hu with rfl | ⟨r, rfl⟩
      · exact ⟨y :: ys, List.suffix_rfl, h.symm⟩
      rw [hnext, List.append_assoc, List.singleton_append] at h
      have hrest : ∀ y ∈ ys, '/' ∉ y.toList := fun d hd => hys d (List.mem_cons_of_mem _ hd)
      -- The slash is the one behind this segment, or stands behind a later one.
      rcases List.append_eq_append_iff.mp h with ⟨a, rfl, ha⟩ | ⟨a, hy, ha⟩
      · cases a with
        | nil =>
            obtain rfl := (List.cons.inj ha).2
            exact ⟨ys, List.suffix_cons y ys, rfl⟩
        | cons c a =>
            obtain rfl := (List.cons.inj ha).1
            obtain ⟨ds, hds, hz⟩ := ih hrest (u := a ++ ['/']) (.inr ⟨a, rfl⟩)
              (by rw [List.append_assoc]; exact (List.cons.inj ha).2)
            exact ⟨ds, hds.trans (List.suffix_cons y ys), hz⟩
      · cases a with
        | nil =>
            obtain rfl := (List.cons.inj ha).2
            exact ⟨ys, List.suffix_cons y ys, rfl⟩
        | cons c a =>
            obtain ⟨rfl, -⟩ := List.cons.inj ha
            refine absurd ?_ (hys y List.mem_cons_self)
            rw [hy]
            exact List.mem_append_right _ List.mem_cons_self

theorem getLast?_chainText {fs : List Filter} (h : fs ≠ []) :
    (Filter.chainText fs).toList.getLast? = some ')' := by
  obtain ⟨gs, g, rfl⟩ := (List.eq_nil_or_concat' fs).resolve_left h
  have hlast : g.text.toList.getLast? = some ')' := by
    rw [Filter.toList_text, ← List.cons_append, ← List.append_assoc, List.getLast?_append]
    rfl
  unfold Filter.chainText
  rw [List.map_append, List.map_singleton]
  by_cases hgs : gs = []
  · subst hgs
    rwa [List.map_nil, List.nil_append, String.intercalate_singleton]
  · rw [String.intercalate_append_of_ne_nil (by simpa using hgs) (by simp),
      String.intercalate_singleton, String.toList_append, List.getLast?_append, hlast]
    rfl

/-- The segment of filters ends with a parenthesis. -/
theorem leading_filterSegment {fs : List Filter} (h : fs ≠ []) :
    ∃ r, leading (filterSegment fs) = r ++ [')', '/'] := by
  obtain ⟨r, hr⟩ := List.getLast?_eq_some_iff.mp (getLast?_chainText h)
  refine ⟨Filter.chainWord.toList ++ r, ?_⟩
  have hne : ¬ fs.isEmpty = true := by simpa using h
  rw [filterSegment, if_neg hne]
  simp [leading, hr]

/-- What stands last in front of the image holds a parenthesis, if there are filters. -/
theorem filters_nil_of_leading {front xs : List String} {fs : List Filter} {z : List Char}
    (h : leading (front ++ filterSegment fs) = leading xs ++ z ++ ['/']) (hz : ')' ∉ z) :
    fs = [] := by
  by_contra hfs
  obtain ⟨r, hr⟩ := leading_filterSegment hfs
  rw [leading_append, hr, show [')', '/'] = [')'] ++ ['/'] from rfl, ← List.append_assoc,
    ← List.append_assoc] at h
  obtain ⟨h, -⟩ := List.append_inj' h rfl
  -- If nothing stands there, the parenthesis would be the slash behind the segments before it.
  rcases List.eq_nil_or_concat' z with rfl | ⟨z, c, rfl⟩
  · rw [List.append_nil] at h
    rcases leading_eq xs with hnil | ⟨r', hr'⟩
    · rw [hnil] at h
      simp at h
    · rw [hr'] at h
      exact absurd (List.append_inj' h rfl).2 (by decide)
  · rw [← List.append_assoc] at h
    obtain rfl := List.singleton_injective (List.append_inj' h rfl).2
    exact hz (List.mem_append_right _ List.mem_cons_self)

/-- If joined segments with different images are equal, one image begins with what stands last in
front of the other one. -/
theorem leading_of_intercalate_eq {xs ys : List String} {e f : String}
    (h : String.intercalate "/" (xs ++ [e]) = String.intercalate "/" (ys ++ [f])) (hne : e ≠ f) :
    (∃ z, leading ys = leading xs ++ z ++ ['/'] ∧ e.toList = z ++ '/' :: f.toList) ∨
      ∃ z, leading xs = leading ys ++ z ++ ['/'] ∧ f.toList = z ++ '/' :: e.toList := by
  have hsplit : ∀ {xs ys : List String} {e f : String} {a : List Char}, e ≠ f →
      leading ys = leading xs ++ a → e.toList = a ++ f.toList →
        ∃ z, leading ys = leading xs ++ z ++ ['/'] ∧ e.toList = z ++ '/' :: f.toList := by
    intro xs ys e f a hne hys he
    rcases List.eq_nil_or_concat' a with rfl | ⟨z, c, rfl⟩
    · exact absurd (String.toList_inj.mp he) hne
    rcases leading_eq ys with hnil | ⟨r, hr⟩
    · rw [hnil] at hys
      simp at hys
    rw [hr, ← List.append_assoc] at hys
    obtain ⟨rfl, hc⟩ := List.append_inj' hys rfl
    obtain rfl := List.singleton_injective hc
    exact ⟨z, hr, by rw [he, List.append_assoc]; rfl⟩
  have htext := congrArg String.toList h
  rw [toList_intercalate, toList_intercalate] at htext
  rcases List.append_eq_append_iff.mp htext with ⟨a, hys, he⟩ | ⟨a, hxs, hf⟩
  · exact .inl (hsplit hne hys he)
  · exact .inr (hsplit hne.symm hxs hf)

end Params

/-! ## The image of a path -/

namespace Encoding

variable {α : Type} [Scalar α] {c d : Encoding α} {t : String}

/-- Whether the image of one encoding, written as it is, begins with the last segments that stand
in front of the image of another one, which has no filters, and goes on with that image.  If no
alignment holds a slash these are whole segments, and the first one is a crop, a size, a padding or
an alignment. -/
structure Swallows (c d : Encoding α) (front : List String) : Prop where
  verbatim : ImagePath.needsEscape c.imagePath = false
  segments : ∃ u z, String.intercalate "/" front = u ++ z ∧
    c.imagePath = z ++ "/" ++ ImagePath.encode d.imagePath
  whole : (∀ w, d.state.params.hAlign = some w ∨ d.state.params.vAlign = some w →
      '/' ∉ w.toList) →
    ∃ y ys, y :: ys <:+ front ∧
      c.imagePath = String.intercalate "/" (y :: ys ++ [ImagePath.encode d.imagePath]) ∧
      (Measure y ∨ d.state.params.hAlign = some y ∨ d.state.params.vAlign = some y)

/-- An image that begins with what stands last in front of another one swallows it. -/
theorem swallows_of_leading {xs front : List String} {fs : List Filter} {z : List Char}
    (hparts : d.Parts front fs)
    (hleading : Params.leading (front ++ filterSegment fs) = Params.leading xs ++ z ++ ['/'])
    (himage : (ImagePath.encode c.imagePath).toList =
      z ++ '/' :: (ImagePath.encode d.imagePath).toList) :
    d.Parts front [] ∧ c.Swallows d front := by
  have hslash : '/' ∈ (ImagePath.encode c.imagePath).toList := by
    rw [himage]
    exact List.mem_append_right _ List.mem_cons_self
  obtain ⟨hverbatim, hsame⟩ := ImagePath.verbatim_of_slash hslash
  rw [hsame] at himage
  obtain rfl : fs = [] := Params.filters_nil_of_leading hleading fun hz =>
    ImagePath.safe_of_verbatim hverbatim ')' (himage ▸ List.mem_append_left _ hz) (by decide)
  have hleading : Params.leading front = Params.leading xs ++ z ++ ['/'] := by
    have hnil : filterSegment [] = [] := rfl
    rwa [hnil, List.append_nil] at hleading
  have hne : front ≠ [] := by
    rintro rfl
    simp [Params.leading] at hleading
  refine ⟨hparts, hverbatim, ?segments, fun halign => ?whole⟩
  case segments =>
    rw [Params.leading_eq_intercalate hne] at hleading
    refine ⟨String.ofList (Params.leading xs), String.ofList z, ?_, ?_⟩
    · refine String.toList_inj.mp ?_
      rw [(List.append_inj' hleading rfl).1]
      simp
    · refine String.toList_inj.mp ?_
      rw [himage]
      simp
  case whole =>
    obtain ⟨width, height, padding, rfl⟩ := Params.front_eq_ok hparts.front_eq
    rw [List.append_assoc] at hleading
    obtain ⟨ds, hds, hz⟩ := Params.suffix_of_leading
      (fun y hy => Params.notMem_slash_frontSegments halign hy) (Params.leading_eq xs) hleading
    have hjoin : c.imagePath =
        String.intercalate "/" (ds ++ [ImagePath.encode d.imagePath]) := by
      refine String.toList_inj.mp ?_
      rw [Params.toList_intercalate, ← hz, himage]
      simp
    cases ds with
    | nil => simp [Params.leading] at hz
    | cons y ys =>
        refine ⟨y, ys, hds, hjoin, ?_⟩
        rcases Params.mem_frontSegments (hds.subset List.mem_cons_self) with
          hmeasure | hword | hword
        · exact .inl hmeasure
        · -- An image that begins with one of the words would have been escaped.
          rw [List.cons_append, String.intercalate_cons_of_ne_nil (by simp)] at hjoin
          exact absurd hword (ImagePath.notMem_segmentWords_of_verbatim (hjoin ▸ hverbatim))
        · exact .inr hword

/-- If two encodings have one path they have one image, or the image of one of them swallows the
other one. -/
theorem image_of_path (hc : c.path = .ok t) (hd : d.path = .ok t) :
    c.imagePath = d.imagePath ∨
      (∃ front, d.Parts front [] ∧ c.Swallows d front) ∨
      ∃ front, c.Parts front [] ∧ d.Swallows c front := by
  obtain ⟨front, fs, hparts, ht⟩ := parts_of_path hc
  obtain ⟨front', fs', hparts', ht'⟩ := parts_of_path hd
  by_cases heq : c.imagePath = d.imagePath
  · exact .inl heq
  refine .inr ?_
  have hne : ImagePath.encode c.imagePath ≠ ImagePath.encode d.imagePath :=
    fun h => heq (ImagePath.encode_injective h)
  rcases Params.leading_of_intercalate_eq (ht ▸ ht') hne with ⟨z, hz, he⟩ | ⟨z, hz, he⟩
  · exact .inl ⟨front', swallows_of_leading hparts' hz he⟩
  · exact .inr ⟨front, swallows_of_leading hparts hz he⟩

/-- A photo in a directory with the name of a size. -/
def sizedName : Encoding Rat where
  state := .empty
  imagePath := "800x600/photo.jpg"
  natural := none
  options := { scale := 1 }
  isLayer := false
  canvas := none

/-- A photo resized to that size. -/
def resizedPhoto : Encoding Rat :=
  { sizedName with
    state := ⟨{ width := some 800, height := some 600 }, none⟩
    imagePath := "photo.jpg" }

/-- The name of the directory is taken for a size. -/
theorem image_of_path_sizedName : sizedName.path = .ok "800x600/photo.jpg" ∧
    resizedPhoto.path = .ok "800x600/photo.jpg" ∧
    sizedName.imagePath ≠ resizedPhoto.imagePath ∧
    ∃ front, resizedPhoto.Parts front [] ∧ sizedName.Swallows resizedPhoto front := by
  have hne : sizedName.imagePath ≠ resizedPhoto.imagePath := by decide
  have hsized : sizedName.path = .ok "800x600/photo.jpg" :=
    of_toOption_eq_some (by decide +kernel)
  have hresized : resizedPhoto.path = .ok "800x600/photo.jpg" :=
    of_toOption_eq_some (by decide +kernel)
  refine ⟨hsized, hresized, hne, ?_⟩
  rcases image_of_path hsized hresized with heq | hswallows | ⟨front, -, hswallows⟩
  · exact absurd heq hne
  · exact hswallows
  · obtain ⟨u, z, -, himage⟩ := hswallows.segments
    have hslash : '/' ∈ resizedPhoto.imagePath.toList := by
      rw [himage]
      simp
    exact absurd hslash (by decide)

end Encoding

end Retouch
