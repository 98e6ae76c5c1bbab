/-
  Names of templates as names of files.

  A name loses the characters that file systems do not take, and what exceeds a length, and the
  blanks at its ends before and after. Main fact: a name has no forbidden character left
  (`forbidden_not_mem_clean`).
-/
import Retouch.Text.Blank

namespace Retouch.TemplateName

/-- The end of the file name of a template. -/
def fileEnd : String := ".imagor.json"

/-- The end of the file name of its preview image. -/
def previewEnd : String := ".imagor.preview.webp"

/-- The most characters of a name. -/
def maxLength : Int := 100

/-- Whether a character may not stand in a file name. -/
def isForbidden (c : Char) : Bool :=
  ['/', '\\', ':', '*', '?', '"', '<', '>', '|'].contains c || c.toNat < 0x20 || c.toNat = 0x7f

/-- The first `length` characters; a negative length counts from the end. -/
def cut (length : Int) (cs : List Char) : List Char :=
  if 0 ≤ length then cs.take length.toNat else cs.take (cs.length - length.natAbs)

/-- The characters of a name that are fit for a file. -/
def clean (length : Int) (cs : List Char) : List Char :=
  Text.trimBy Text.isBlank
    (cut length ((Text.trimBy Text.isBlank cs).filter fun c => !isForbidden c))

/-- A name fit for a file, empty if nothing is left. -/
def sanitize (name : String) (length : Int) : String :=
  String.ofList (clean length name.toList)

/-- The name of the file of a template. -/
def file (name : String) : String := sanitize name maxLength ++ fileEnd

/-- The name of the file of its preview image. -/
def preview (name : String) : String := sanitize name maxLength ++ previewEnd

theorem mem_of_mem_trimBy {p : Char → Bool} {c : Char} {cs : List Char}
    (h : c ∈ Text.trimBy p cs) : c ∈ cs := by
  have hback : c ∈ (cs.dropWhile p).reverse.dropWhile p := by simpa [Text.trimBy] using h
  have hfront := (List.dropWhile_sublist p).subset hback
  exact (List.dropWhile_sublist p).subset (List.mem_reverse.mp hfront)

theorem mem_of_mem_cut {length : Int} {c : Char} {cs : List Char} (h : c ∈ cut length cs) :
    c ∈ cs := by
  unfold cut at h
  split at h
  · exact List.mem_of_mem_take h
  · exact List.mem_of_mem_take h

/-- A cleaned name has no forbidden character. -/
theorem forbidden_not_mem_clean {length : Int} {cs : List Char} {c : Char}
    (h : c ∈ clean length cs) : isForbidden c = false := by
  have hkept := mem_of_mem_cut (mem_of_mem_trimBy h)
  simpa using (List.mem_filter.mp hkept).2

end Retouch.TemplateName
