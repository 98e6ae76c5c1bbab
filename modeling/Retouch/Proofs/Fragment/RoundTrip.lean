/-
  Fragments there and back.

  A state whose fragment can be written at all has only numbers that can be read again
  (`short_of_serialize`), so its fragment is read back, whatever its positions are: a state is
  written as its normal form, and that is what reading gives.  The state that is read has exactly
  the entries that differ from their defaults, and has the same fragment again (`round_trip`).
-/
import Retouch.Proofs.Fragment.ReadBack
import Retouch.Proofs.State.Printable

namespace Retouch

namespace Fragment

variable {s : State} {fragment : String}

/-! ## Fragments that can be written -/

theorem serialize_eq_ok_iff :
    serialize s = .ok fragment ↔
      s.hasPrintableOffsets = true ∧ (Value.object (significant s)).isPrintable = true ∧
        encode s = fragment := by
  unfold serialize
  split
  · rename_i h
    obtain ⟨hoffsets, hnumbers⟩ := Bool.and_eq_true_iff.mp h
    simp [hoffsets, hnumbers]
  · rename_i h
    refine ⟨fun h => (by cases h), fun ⟨hoffsets, hnumbers, _⟩ => absurd ?_ h⟩
    rw [hoffsets, hnumbers]
    rfl

/-- A default is null, a truth value or zero. -/
theorem isPrintable_of_isDefault {key : String} {v : Value} (h : isDefault key v = true) :
    v.isPrintable = true := by
  have hdefault : ∀ d, default? key = some d → d = .bool true ∨ d = .bool false ∨ d = .int 0 := by
    intro d hd
    unfold default? at hd
    split_ifs at hd <;> simp_all
  unfold isDefault at h
  split at h
  · cases h
  · split at h
    · rename_i d hd
      cases v with
      | int n =>
          rcases hdefault d hd with rfl | rfl | rfl
          · cases h
          · cases h
          · obtain rfl : n = 0 := of_decide_eq_true h
            decide
      | list items | object entries => rcases hdefault d hd with rfl | rfl | rfl <;> cases h
      | _ => rfl
    · cases v with
      | null => rfl
      | _ => cases h

/-- A state that has a fragment has only short numbers. -/
theorem short_of_serialize (h : serialize s = .ok fragment) : s.Short := by
  obtain ⟨hoffsets, hnumbers, -⟩ := serialize_eq_ok_iff.mp h
  refine State.short_of_printable s false hoffsets fun f v hv => ?_
  by_cases hdefault : isDefault f.key v = true
  · exact isPrintable_of_isDefault hdefault
  · refine Value.printableEntries_iff.mp hnumbers (f.key, v) (List.mem_filter.mpr ⟨?_, ?_⟩)
    · exact List.mem_filterMap.mpr ⟨f, f.mem_all, by rw [hv]; rfl⟩
    · simpa using hdefault

/-! ## The state that is read -/

theorem significant_normal (s : State) : significant s.normal = significant s := by
  simp only [significant, State.entries, State.get_normal]

theorem encode_normal (s : State) : encode s.normal = encode s := by
  rw [encode, encode, significant_normal]

/-- The significant part of a state has the significant entries. -/
theorem entries_significant (s : State) : s.significant.entries Field.key = significant s := by
  have hget : ∀ f, s.significant.get f = get s f := by
    intro f
    by_cases hf : f = .layers
    · subst hf
      exact (get_layers s).symm
    · rw [State.get_eq_params hf, get_eq_significant s hf]
      rfl
  simp only [significant_eq, State.entries, hget]

/-- Nothing more is left out of what is significant. -/
theorem significant_significant (s : State) : significant s.significant = significant s := by
  rw [significant, entries_significant, significant, List.filter_filter]
  simp only [Bool.and_self]

/-! ## The text of a fragment -/

/-- A fragment is made of letters, digits, `-` and `_`. -/
theorem alphabet_of_mem_ofPayload {payload : String} {c : Char}
    (h : c ∈ (ofPayload payload).toList) : c.isAlphanum = true ∨ c = '-' ∨ c = '_' := by
  rw [ofPayload, String.toList_ofList] at h
  obtain ⟨n, hn, rfl⟩ := Bytes.symbol_of_mem_dropPadding h
  have hall : ∀ n < 64, (Bytes.Alphabet.address.symbol n).isAlphanum = true ∨
      Bytes.Alphabet.address.symbol n = '-' ∨ Bytes.Alphabet.address.symbol n = '_' := by
    decide
  exact hall n hn

/-- The mark in front of a fragment does not matter. -/
theorem payload?_mark {payload : String} (hne : ofPayload payload ≠ "") :
    payload? ("#" ++ ofPayload payload) = payload? (ofPayload payload) := by
  obtain ⟨cs, hcs⟩ : ∃ cs, (ofPayload payload).toList = cs := ⟨_, rfl⟩
  have hplain : ∀ c ∈ cs, Text.isBlank c = false := by
    intro c hc
    rw [← hcs, ofPayload, String.toList_ofList] at hc
    exact (Bytes.plain_of_mem_dropPadding hc).2.1
  have hnil : cs ≠ [] := fun h => hne (String.toList_eq_nil_iff.mp (hcs.trans h))
  have hmarked : ("#" ++ ofPayload payload).toList = '#' :: cs := by
    rw [String.toList_append, hcs]
    rfl
  have htrim : Text.trimBy Text.isBlank cs = cs :=
    Text.trimBy_eq_self (fun c hc => hplain c (List.mem_of_mem_head? hc))
      fun c hc => hplain c (List.mem_of_mem_getLast? hc)
  have htrimMarked : Text.trimBy Text.isBlank ('#' :: cs) = '#' :: cs := by
    refine Text.trimBy_eq_self (fun c hc => ?_) fun c hc => ?_
    · obtain rfl : '#' = c := by simpa using hc
      decide
    · rw [List.getLast?_cons_of_ne_nil hnil] at hc
      exact hplain c (List.mem_of_mem_getLast? hc)
  have hdrop : ('#' :: cs).dropWhile (fun c => decide (c = '#')) =
      cs.dropWhile (fun c => decide (c = '#')) := List.dropWhile_cons_of_pos rfl
  unfold payload?
  simp only [hmarked, hcs, htrim, htrimMarked, hdrop, List.isEmpty_cons,
    List.isEmpty_eq_false_iff.mpr hnil]

theorem significant_ne_nil (h : encode s ≠ "") : significant s ≠ [] := by
  intro hnil
  refine h ?_
  unfold encode
  simp only [hnil]
  rfl

/-! ## There and back -/

/-- A state that has a fragment is read back from it: the state that is read has exactly the entries
    that differ from their defaults, and the same fragment.  The fragment is made of letters,
    digits, `-` and `_`, and may have the mark of a fragment in front.

    Only what validation ensures is asked of the state: its rotations are within one turn, the
    transparency of its layers is in percent and their settings name no image. -/
theorem round_trip {s : State} (hs : s.Admissible) {fragment : String}
    (h : serialize s = .ok fragment) (hne : fragment ≠ "") (issued : ℕ) :
    ∃ d es, decode fragment issued = (.ok (some d), issued) ∧
      s.write = .object es ∧ d.write = .object (es.filter fun e => !isDefault e.1 e.2) ∧
      (∀ c ∈ fragment.toList, c.isAlphanum = true ∨ c = '-' ∨ c = '_') ∧
      decode ("#" ++ fragment) issued = (.ok (some d), issued) ∧
      serialize d = .ok fragment := by
  obtain ⟨hoffsets, hnumbers, rfl⟩ := serialize_eq_ok_iff.mp h
  have hvalid := State.valid_normal hs
  have hshort := State.short_normal (short_of_serialize h)
  -- The state is written as its normal form is, and the normal form is in the form of reading.
  have hread : decode (encode s) issued = (.ok (some s.normal.significant), issued) := by
    rw [← encode_normal] at hne ⊢
    exact decode_encode hvalid hshort issued hne
  have hsignificant : significant s.normal.significant = significant s := by
    rw [significant_significant, significant_normal]
  have hsame : encode s.normal.significant = encode s := by
    rw [encode, encode, hsignificant]
  have hpayload := encode_eq_ofPayload (significant_ne_nil hne)
  have hmark : decode ("#" ++ encode s) issued = decode (encode s) issued := by
    unfold decode
    rw [hpayload, payload?_mark (hpayload ▸ hne)]
  refine ⟨s.normal.significant, _, hread, State.write_eq s, ?_, ?_, hmark.trans hread, ?_⟩
  · rw [State.write_eq, entries_significant, significant_normal]
    rfl
  · intro c hc
    exact alphabet_of_mem_ofPayload (hpayload ▸ hc)
  · refine serialize_eq_ok_iff.mpr ⟨?_, hsignificant ▸ hnumbers, hsame⟩
    rw [show s.normal.significant.hasPrintableOffsets = s.normal.hasPrintableOffsets by
      obtain ⟨p, _ | ls⟩ := s <;> rfl, State.hasPrintableOffsets_normal, hoffsets]

/-- A wanted width, the default of fitting, and a layer at a coordinate that is a whole double. -/
def badged : State :=
  ⟨{ width := some 800, fitIn := some true }, some [⟨{
    id := "badge", imagePath := "badge.png", originalDimensions := ⟨32, 32⟩
    x := .absolute (.float 5.0), y := .aligned .bottom 20 }, none⟩]⟩

/-- The default is left out, and the layer comes back. -/
theorem round_trip_badged :
    badged.Admissible ∧ ∃ fragment, serialize badged = .ok fragment ∧ fragment ≠ "" ∧
      ∃ d es, decode fragment 0 = (.ok (some d), 0) ∧ badged.write = .object es ∧
        d.write = .object (es.filter fun e => !isDefault e.1 e.2) ∧
        serialize d = .ok fragment := by
  have hs : badged.Admissible :=
    ⟨⟨fun _ h => (by cases h), fun h => (by cases h)⟩, ⟨by decide, by decide⟩, trivial⟩
  have hok : serialize badged = .ok (encode badged) :=
    serialize_eq_ok_iff.mpr ⟨by decide +kernel, by decide +kernel, rfl⟩
  have hne : encode badged ≠ "" := by decide +kernel
  obtain ⟨d, es, hread, hwrite, hkept, -, -, hagain⟩ := round_trip hs hok hne 0
  exact ⟨hs, _, hok, hne, d, es, hread, hwrite, hkept, hagain⟩

end Fragment

end Retouch
