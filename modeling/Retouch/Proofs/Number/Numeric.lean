/-
  The characters of numbers.

  Apart from the words for special values a number is written with digits and the marks between
  them (`numeric_intText`, `text_cases`).  So a character that is neither stands in no number.
-/
import Retouch.Proofs.Value.Numbers

namespace Retouch.Number

/-- Whether a text is made of digits and of the marks between them. -/
def Numeric (s : String) : Prop :=
  ∀ c ∈ s.toList, isDigit c = true ∨ c ∈ ['-', '+', '.', 'e']

instance (s : String) : Decidable (Numeric s) := List.decidableBAll _ _

theorem Numeric.append {s t : String} (hs : Numeric s) (ht : Numeric t) : Numeric (s ++ t) := by
  intro c hc
  rw [String.toList_append] at hc
  exact (List.mem_append.mp hc).elim (hs c) (ht c)

theorem Numeric.notMem {s : String} (h : Numeric s) {c : Char} (hdigit : isDigit c = false)
    (hmark : c ∉ ['-', '+', '.', 'e']) : c ∉ s.toList := fun hc =>
  (h c hc).elim (fun hc => Bool.false_ne_true (hdigit.symm.trans hc)) hmark

theorem numeric_ofList {cs : List Char} (h : ∀ c ∈ cs, isDigit c = true) :
    Numeric (String.ofList cs) := by
  intro c hc
  rw [String.toList_ofList] at hc
  exact .inl (h c hc)

theorem numeric_natText (n : Nat) : Numeric (natText n) :=
  numeric_ofList fun _ hc => isDigit_of_mem_toDigits hc

theorem numeric_intText (n : Int) : Numeric (intText n) := by
  unfold intText
  split
  · exact Numeric.append (by decide) (numeric_natText _)
  · exact numeric_natText _

theorem numeric_zeros (count : Nat) : Numeric (zeros count) :=
  numeric_ofList fun _ hc => isDigit_zeros hc

theorem numeric_exponentText (l : Layout) (power : Int) : Numeric (l.exponentText power) := by
  unfold Layout.exponentText
  refine ((Numeric.append ?_ ?_).append (numeric_zeros _)).append (numeric_natText _)
  · decide
  · split <;> decide

theorem numeric_decimalText (l : Layout) (d : Decimal) : Numeric (l.decimalText d) := by
  have hdigits : ∀ c ∈ Nat.toDigits 10 d.digits, isDigit c = true :=
    fun _ hc => isDigit_of_mem_toDigits hc
  have htake : ∀ n, Numeric (String.ofList ((Nat.toDigits 10 d.digits).take n)) :=
    fun n => numeric_ofList fun c hc => hdigits c (List.mem_of_mem_take hc)
  have hdrop : ∀ n, Numeric (String.ofList ((Nat.toDigits 10 d.digits).drop n)) :=
    fun n => numeric_ofList fun c hc => hdigits c (List.mem_of_mem_drop hc)
  have hpoint : Numeric "." := by decide
  unfold Layout.decimalText
  extract_lets ds power front rest
  split
  · split
    · exact (Numeric.append (by decide) (numeric_zeros _)).append (numeric_ofList hdigits)
    · refine (((htake _).append (numeric_zeros _)).append hpoint).append ?_
      split
      · decide
      · exact hdrop _
  · refine ((htake _).append ?_).append (numeric_exponentText l _)
    split
    · decide
    · exact hpoint.append (hdrop _)

/-- A double is written with digits and marks, unless there is a word for it. -/
theorem text_cases (l : Layout) (x : Float) :
    l.text x ∈ [l.notANumber, l.infinity, l.negativeInfinity] ∨ Numeric (l.text x) := by
  unfold Layout.text
  split
  · exact .inl (by simp)
  · exact .inl (by simp)
  · exact .inl (by simp)
  · extract_lets size
    have hsize : Numeric size := by
      simp only [size]
      split
      · decide
      · exact numeric_decimalText _ _
    right
    split
    · exact Numeric.append (by decide) hsize
    · exact hsize

end Retouch.Number
