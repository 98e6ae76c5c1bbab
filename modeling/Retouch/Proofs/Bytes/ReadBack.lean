/-
  Bytes read back from their texts.

  Base64 without its padding is still read back: the length says how much padding is missing
  (`decode?_dropPadding`).  Its characters are ASCII, none is blank, and none is a mark that a
  fragment could begin with (`plain_of_mem_dropPadding`).  A text is read back from its UTF-8 bytes
  (`text?_ofText`).
-/
import Mathlib.Data.List.Basic
import Retouch.Bytes.Base64
import Retouch.Bytes.Utf8
import Retouch.Text.Blank

namespace Retouch.Bytes

/-! ## Symbols -/

section

variable (a : Alphabet) {n : ℕ}

theorem symbolValue?_symbol_of_lt (h : n < 64) : symbolValue? (a.symbol n) = some n :=
  List.map_inj_left.mp (symbolValue?_symbol a) n (List.mem_range.mpr h)

/-- A symbol is ASCII, not blank and no mark. -/
theorem symbol_plain (h : n < 64) : (a.symbol n).toNat < 128 ∧
    Text.isBlank (a.symbol n) = false ∧ a.symbol n ≠ '#' ∧ a.symbol n ≠ '=' := by
  have hall : ∀ n < 64, (a.symbol n).toNat < 128 ∧ Text.isBlank (a.symbol n) = false ∧
      a.symbol n ≠ '#' ∧ a.symbol n ≠ '=' := by
    cases a <;> decide
  exact hall n h

/-! ## Groups -/

variable (left pads : ℕ) (r : List Char)

theorem decodeFrom_first (h : n < 64) :
    decodeFrom 0 left pads (a.symbol n :: r) = decodeFrom 1 n 0 r := by
  rw [decodeFrom, if_neg (symbol_plain a h).2.2.2, symbolValue?_symbol_of_lt a h]
  rfl

theorem decodeFrom_second (h : n < 64) : decodeFrom 1 left pads (a.symbol n :: r) =
    (decodeFrom 2 (n % 16) 0 r).map (UInt8.ofNat (left * 4 + n / 16) :: ·) := by
  rw [decodeFrom, if_neg (symbol_plain a h).2.2.2, symbolValue?_symbol_of_lt a h]
  rfl

theorem decodeFrom_third (h : n < 64) : decodeFrom 2 left pads (a.symbol n :: r) =
    (decodeFrom 3 (n % 4) 0 r).map (UInt8.ofNat (left * 16 + n / 4) :: ·) := by
  rw [decodeFrom, if_neg (symbol_plain a h).2.2.2, symbolValue?_symbol_of_lt a h]
  rfl

theorem decodeFrom_fourth (h : n < 64) : decodeFrom 3 left pads (a.symbol n :: r) =
    (decodeFrom 0 0 0 r).map (UInt8.ofNat (left * 64 + n) :: ·) := by
  rw [decodeFrom, if_neg (symbol_plain a h).2.2.2, symbolValue?_symbol_of_lt a h]
  rfl

/-- A byte is the one with its bits, wherever they were cut. -/
theorem ofNat_eq_of_toNat {x : UInt8} {m : ℕ} (h : m = x.toNat) : UInt8.ofNat m = x := by
  rw [h, UInt8.ofNat_toNat]

end

/-- What was written is read back. -/
theorem decode?_encode (a : Alphabet) (bytes : List UInt8) :
    decode? (encode a bytes) = some bytes := by
  show decodeFrom 0 0 0 (encode a bytes) = some bytes
  fun_induction encode a bytes with
  | case1 => rfl
  | case2 x =>
      have hx := x.toNat_lt
      rw [decodeFrom_first a _ _ _ (by omega), decodeFrom_second a _ _ _ (by omega),
        ofNat_eq_of_toNat (show _ = x.toNat by omega)]
      rfl
  | case3 x y =>
      have hx := x.toNat_lt
      have hy := y.toNat_lt
      rw [decodeFrom_first a _ _ _ (by omega), decodeFrom_second a _ _ _ (by omega),
        decodeFrom_third a _ _ _ (by omega), ofNat_eq_of_toNat (show _ = x.toNat by omega),
        ofNat_eq_of_toNat (show _ = y.toNat by omega)]
      rfl
  | case4 x y z r ih =>
      have hx := x.toNat_lt
      have hy := y.toNat_lt
      have hz := z.toNat_lt
      rw [decodeFrom_first a _ _ _ (by omega), decodeFrom_second a _ _ _ (by omega),
        decodeFrom_third a _ _ _ (by omega), decodeFrom_fourth a _ _ _ (by omega), ih,
        ofNat_eq_of_toNat (show _ = x.toNat by omega),
        ofNat_eq_of_toNat (show _ = y.toNat by omega),
        ofNat_eq_of_toNat (show _ = z.toNat by omega)]
      rfl

/-! ## Padding -/

/-- What is written is symbols and at most two signs of padding. -/
theorem encode_eq_append (a : Alphabet) (bytes : List UInt8) :
    ∃ cs k, encode a bytes = cs ++ List.replicate k '=' ∧ k ≤ 2 ∧
      ∀ c ∈ cs, ∃ n < 64, c = a.symbol n := by
  fun_induction encode a bytes with
  | case1 => exact ⟨[], 0, rfl, by omega, by simp⟩
  | case2 x =>
      have hx := x.toNat_lt
      refine ⟨[_, _], 2, rfl, by omega, ?_⟩
      simp only [List.mem_cons, List.not_mem_nil, or_false, forall_eq_or_imp, forall_eq]
      exact ⟨⟨_, by omega, rfl⟩, ⟨_, by omega, rfl⟩⟩
  | case3 x y =>
      have hx := x.toNat_lt
      have hy := y.toNat_lt
      refine ⟨[_, _, _], 1, rfl, by omega, ?_⟩
      simp only [List.mem_cons, List.not_mem_nil, or_false, forall_eq_or_imp, forall_eq]
      exact ⟨⟨_, by omega, rfl⟩, ⟨_, by omega, rfl⟩, ⟨_, by omega, rfl⟩⟩
  | case4 x y z r ih =>
      have hx := x.toNat_lt
      have hy := y.toNat_lt
      have hz := z.toNat_lt
      obtain ⟨cs, k, hr, hk, hcs⟩ := ih
      refine ⟨_ :: _ :: _ :: _ :: cs, k, by rw [hr]; rfl, hk, ?_⟩
      simp only [List.mem_cons, forall_eq_or_imp]
      exact ⟨⟨_, by omega, rfl⟩, ⟨_, by omega, rfl⟩, ⟨_, by omega, rfl⟩, ⟨_, by omega, rfl⟩, hcs⟩

theorem dropPadding_append {cs : List Char} (k : ℕ) (h : ∀ c ∈ cs, c ≠ '=') :
    dropPadding (cs ++ List.replicate k '=') = cs := by
  have hstop : cs.reverse.dropWhile (fun c => decide (c = '=')) = cs.reverse := by
    refine Text.dropWhile_eq_self_of_head fun c hc => ?_
    have hmem : c ∈ cs := List.mem_reverse.mp (List.mem_of_mem_head? hc)
    exact decide_eq_false (h c hmem)
  unfold dropPadding
  rw [List.reverse_append, List.reverse_replicate,
    List.dropWhile_append_of_pos (fun c hc => by simp [List.eq_of_mem_replicate hc]), hstop,
    List.reverse_reverse]

/-- The symbols of a text without its padding. -/
theorem symbol_of_mem_dropPadding {a : Alphabet} {bytes : List UInt8} {c : Char}
    (h : c ∈ dropPadding (encode a bytes)) : ∃ n < 64, c = a.symbol n := by
  obtain ⟨cs, k, heq, -, hcs⟩ := encode_eq_append a bytes
  have hpad : ∀ c ∈ cs, c ≠ '=' := by
    rintro c hc rfl
    obtain ⟨n, hn, he⟩ := hcs _ hc
    exact (symbol_plain a hn).2.2.2 he.symm
  rw [heq, dropPadding_append k hpad] at h
  exact hcs c h

theorem plain_of_mem_dropPadding {a : Alphabet} {bytes : List UInt8} {c : Char}
    (h : c ∈ dropPadding (encode a bytes)) :
    c.toNat < 128 ∧ Text.isBlank c = false ∧ c ≠ '#' := by
  obtain ⟨n, hn, rfl⟩ := symbol_of_mem_dropPadding h
  obtain ⟨hascii, hblank, hmark, -⟩ := symbol_plain a hn
  exact ⟨hascii, hblank, hmark⟩

theorem padToGroups_dropPadding (a : Alphabet) (bytes : List UInt8) :
    padToGroups (dropPadding (encode a bytes)) = encode a bytes := by
  obtain ⟨cs, k, heq, hk, hcs⟩ := encode_eq_append a bytes
  have hpad : ∀ c ∈ cs, c ≠ '=' := by
    rintro c hc rfl
    obtain ⟨n, hn, he⟩ := hcs _ hc
    exact (symbol_plain a hn).2.2.2 he.symm
  have hlength : cs.length + k = 4 * ((bytes.length + 2) / 3) := by
    rw [← length_encode a bytes, heq, List.length_append, List.length_replicate]
  have hmissing : (4 - cs.length % 4) % 4 = k := by omega
  rw [heq, dropPadding_append k hpad]
  show cs ++ List.replicate ((4 - cs.length % 4) % 4) '=' = _
  rw [hmissing]

/-- The bytes are read back from a text without its padding. -/
theorem decode?_dropPadding (a : Alphabet) (bytes : List UInt8) :
    decode? (padToGroups (dropPadding (encode a bytes))) = some bytes := by
  rw [padToGroups_dropPadding, decode?_encode]

theorem dropPadding_encode_ne_nil {a : Alphabet} {bytes : List UInt8} (h : bytes ≠ []) :
    dropPadding (encode a bytes) ≠ [] := by
  intro hnil
  have hread := decode?_dropPadding a bytes
  rw [hnil] at hread
  exact h (Option.some.inj hread).symm

/-! ## Texts -/

theorem toList_loop_eq (bytes : ByteArray) (k i : ℕ) (r : List UInt8) (h : bytes.size ≤ i + k) :
    ByteArray.toList.loop bytes i r = r.reverse ++ bytes.data.toList.drop i := by
  have hsize : bytes.data.toList.length = bytes.size := Array.length_toList
  induction k generalizing i r with
  | zero =>
      rw [ByteArray.toList.loop.eq_1, if_neg (by omega), List.drop_eq_nil_of_le (by omega),
        List.append_nil]
  | succ k ih =>
      rw [ByteArray.toList.loop.eq_1]
      split
      · rename_i hi
        have hlt : i < bytes.data.toList.length := by omega
        have hget : bytes.get! i = bytes.data.toList[i] := by
          show bytes.data[i]! = _
          rw [getElem!_pos bytes.data i hi, Array.getElem_toList]
        rw [ih (i + 1) _ (by omega), hget, List.drop_eq_getElem_cons hlt,
          List.reverse_cons, List.append_assoc, List.singleton_append]
      · rw [List.drop_eq_nil_of_le (by omega), List.append_nil]

theorem toList_eq (bytes : ByteArray) : bytes.toList = bytes.data.toList := by
  rw [ByteArray.toList, toList_loop_eq bytes bytes.size 0 [] (by omega)]
  rfl

/-- A text is read back from its bytes. -/
theorem text?_ofText (s : String) : text? (ofText s) = some s := by
  have hbytes : (⟨(ofText s).toArray⟩ : ByteArray) = s.toUTF8 := by
    rw [ofText, toList_eq]
  rw [text?, hbytes]
  unfold String.fromUTF8?
  rw [String.toUTF8_eq_toByteArray, dif_pos s.isValidUTF8]
  rfl

end Retouch.Bytes
