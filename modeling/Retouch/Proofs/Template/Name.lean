/-
  Names that templates are kept under.

  A name is made fit for a file once and for all: what is left of it is left again
  (`TemplateName.key_key`), since it has no blanks at its ends, nothing forbidden and no more
  characters than a name may have.  The ends of file names tell templates from previews
  (`TemplateName.file_ne_preview`), and a name is found again in front of its end
  (`TemplateName.take_file`).
-/
import Retouch.Template.Name

namespace Retouch.TemplateName

/-! ## Cleaning twice -/

theorem length_trimBy_le (p : Char → Bool) (cs : List Char) :
    (Text.trimBy p cs).length ≤ cs.length := by
  have hback := (List.dropWhile_sublist p (l := (cs.dropWhile p).reverse)).length_le
  have hfront := (List.dropWhile_sublist p (l := cs)).length_le
  rw [List.length_reverse] at hback
  rw [Text.trimBy, List.length_reverse]
  exact Nat.le_trans hback hfront

/-- What is cleaned already is left as it is, unless the length counts from the end. -/
theorem clean_clean {length : Int} (hlength : 0 ≤ length) (cs : List Char) :
    clean length (clean length cs) = clean length cs := by
  obtain ⟨r, hr⟩ : ∃ r, clean length cs = r := ⟨_, rfl⟩
  have htrim : Text.trimBy Text.isBlank r = r := by
    rw [← hr]
    exact Text.trimBy_trimBy _ _
  have hfilter : r.filter (fun c => !isForbidden c) = r := by
    refine List.filter_eq_self.mpr fun c hc => ?_
    rw [forbidden_not_mem_clean (hr ▸ hc)]
    rfl
  have hcut : cut length r = r := by
    -- It was cut once, and trimming made it no longer.
    have hshort : r.length ≤ length.toNat := by
      rw [← hr, clean, cut, if_pos hlength]
      exact Nat.le_trans (length_trimBy_le _ _) (List.length_take_le _ _)
    rw [cut, if_pos hlength, List.take_of_length_le hshort]
  rw [hr, clean, htrim, hfilter, hcut, htrim]

/-- The name that a template is kept under. -/
def key (name : String) : String := sanitize name maxLength

theorem key_key (name : String) : key (key name) = key name := by
  rw [key, key, sanitize, sanitize, String.toList_ofList, clean_clean (by decide)]

/-- Whether a template can be kept under a name as it is. -/
structure IsKey (k : String) : Prop where
  key_eq : key k = k
  ne_empty : k ≠ ""

theorem isKey_key {name : String} (h : key name ≠ "") : IsKey (key name) := ⟨key_key name, h⟩

/-! ## Names of files -/

theorem file_eq (name : String) : file name = key name ++ fileEnd := rfl

theorem preview_eq (name : String) : preview name = key name ++ previewEnd := rfl

/-- A file holds a template or a preview, never both. -/
theorem file_ne_preview (k k' : String) : k ++ fileEnd ≠ k' ++ previewEnd := by
  intro h
  have hlast := congrArg (fun s : String => s.toList.getLast?) h
  simp only [String.toList_append] at hlast
  have hfile : fileEnd.toList.getLast? = some 'n' := by decide
  have hpreview : previewEnd.toList.getLast? = some 'p' := by decide
  rw [List.getLast?_append, List.getLast?_append, hfile, hpreview] at hlast
  exact absurd (Option.some.inj hlast) (by decide)

theorem file_inj {k k' : String} : k ++ fileEnd = k' ++ fileEnd ↔ k = k' := by
  rw [← String.toList_inj, String.toList_append, String.toList_append, List.append_left_inj,
    String.toList_inj]

/-- A name stands in front of the end of its file. -/
theorem take_file (k : String) :
    String.ofList ((k ++ fileEnd).toList.take ((k ++ fileEnd).length - fileEnd.length)) = k := by
  rw [String.length_append, Nat.add_sub_cancel, String.toList_append, ← String.length_toList,
    List.take_left, String.ofList_toList]

/-- What ends like the file of a template is the file of what stands in front of the end. -/
theorem exists_file {name : String} (h : fileEnd.toList.isSuffixOf name.toList = true) :
    ∃ k, name = k ++ fileEnd := by
  obtain ⟨cs, hcs⟩ := List.isSuffixOf_iff_suffix.mp h
  refine ⟨String.ofList cs, String.toList_inj.mp ?_⟩
  rw [String.toList_append, String.toList_ofList, hcs]

theorem isSuffixOf_file (k : String) : fileEnd.toList.isSuffixOf (k ++ fileEnd).toList = true := by
  rw [String.toList_append]
  exact List.isSuffixOf_iff_suffix.mpr (List.suffix_append _ _)

/-- No file has a name with a forbidden character, such as one that leads to another folder. -/
theorem allowed_of_mem_file {k ending : String} (hk : IsKey k)
    (hending : ending ∈ [fileEnd, previewEnd]) {c : Char} (hc : c ∈ (k ++ ending).toList) :
    isForbidden c = false := by
  rw [String.toList_append] at hc
  rcases List.mem_append.mp hc with hc | hc
  · rw [← hk.key_eq, key, sanitize, String.toList_ofList] at hc
    exact forbidden_not_mem_clean hc
  · have hends : ∀ e ∈ [fileEnd, previewEnd], e.toList.all (fun d => !isForbidden d) = true := by
      decide
    have hallowed := List.all_eq_true.mp (hends ending hending) c hc
    simpa using hallowed

end Retouch.TemplateName
