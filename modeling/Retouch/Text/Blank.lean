/-
  White space, and the text left when it is cut off at both ends.

  Two classes are in use. `isSpace` is the Unicode property White_Space; numbers in documents are
  cut by it. `isBlank` adds the four information separators U+001C to U+001F; positions, template
  names and filters are cut by it. Main fact: cutting twice is cutting once (`trimBy_trimBy`).
-/

namespace Retouch.Text

/-! ## The two classes -/

/-- The Unicode property White_Space: 25 characters. -/
def isSpace (c : Char) : Bool :=
  let n := c.toNat
  (0x09 ≤ n && n ≤ 0x0d) || n == 0x20 || n == 0x85 || n == 0xa0 || n == 0x1680 ||
    (0x2000 ≤ n && n ≤ 0x200a) || n == 0x2028 || n == 0x2029 || n == 0x202f || n == 0x205f ||
    n == 0x3000

/-- White space together with the information separators U+001C to U+001F. -/
def isBlank (c : Char) : Bool :=
  isSpace c || (0x1c ≤ c.toNat && c.toNat ≤ 0x1f)

/-! ## Cutting at both ends -/

/-- Drops the longest run of `p` at either end. -/
def trimBy (p : Char → Bool) (cs : List Char) : List Char :=
  ((cs.dropWhile p).reverse.dropWhile p).reverse

/-- A text without the blanks at its ends. -/
def trimBlank (s : String) : String :=
  String.ofList (trimBy isBlank s.toList)

/-- A text without the white space at its ends. -/
def trimSpace (s : String) : String :=
  String.ofList (trimBy isSpace s.toList)

theorem dropWhile_eq_self_of_head {p : Char → Bool} {cs : List Char}
    (h : ∀ c ∈ cs.head?, p c = false) : cs.dropWhile p = cs := by
  cases cs with
  | nil => rfl
  | cons c r => simp [List.dropWhile, h c (by simp)]

theorem head_dropWhile_false (p : Char → Bool) (cs : List Char) :
    ∀ c ∈ (cs.dropWhile p).head?, p c = false := by
  induction cs with
  | nil => simp
  | cons c r ih =>
    by_cases hc : p c = true
    · simpa [List.dropWhile, hc] using ih
    · simp [List.dropWhile, hc]

/-- What is left after dropping from the end begins as before, or is empty. -/
theorem head_reverse_dropWhile_reverse {p : Char → Bool} {cs : List Char} :
    ∀ c ∈ ((cs.reverse.dropWhile p).reverse).head?, c ∈ cs.head? := by
  intro c hc
  have hsuffix : cs.reverse.dropWhile p <:+ cs.reverse := List.dropWhile_suffix p
  have hstart : (cs.reverse.dropWhile p).reverse <+: cs := by
    simpa using List.reverse_prefix.mpr hsuffix
  obtain ⟨t, ht⟩ := hstart
  cases hd : (cs.reverse.dropWhile p).reverse with
  | nil => simp [hd] at hc
  | cons d r =>
    rw [hd] at hc ht
    rw [← ht]
    simpa using hc

/-- The cut text is cut already. -/
theorem trimBy_trimBy (p : Char → Bool) (cs : List Char) :
    trimBy p (trimBy p cs) = trimBy p cs := by
  have hfront : ∀ c ∈ (trimBy p cs).head?, p c = false := fun c hc =>
    head_dropWhile_false p _ c (head_reverse_dropWhile_reverse c hc)
  have hback : ∀ c ∈ (trimBy p cs).reverse.head?, p c = false := by
    simpa [trimBy] using head_dropWhile_false p (cs.dropWhile p).reverse
  show (((trimBy p cs).dropWhile p).reverse.dropWhile p).reverse = trimBy p cs
  rw [dropWhile_eq_self_of_head hfront, dropWhile_eq_self_of_head hback, List.reverse_reverse]

end Retouch.Text
