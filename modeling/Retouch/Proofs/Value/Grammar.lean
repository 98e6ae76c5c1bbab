/-
  The grammar of values.

  `Denotes v cs` says that the characters denote a value, with gaps wherever a writer may put them:
  around the parts of a container and behind the colon of a key.  It is read then, whatever follows
  that does not continue a number (`readValue_of_denotes`): the reader takes one character at least
  for every level of nesting and every item, so fuel for each character is enough.  Parts that are
  joined with a comma and a gap denote a container (`DenotesItems.join`, `DenotesPairs.join`).
-/
import Retouch.Proofs.Value.Numbers
import Retouch.Value.Reader
import Retouch.Value.Writer

namespace Retouch.Value

open Number

/-! ## Texts -/

/-- The four digits of a control character name it. -/
theorem hexFour?_hex {n : ℕ} (h : n < 32) :
    ∃ a b c d, (Text.hex 4 n).toList = [a, b, c, d] ∧ hexFour? a b c d = some n := by
  have hall : ∀ n < 32, (Text.hex 4 n).toList =
        ['0', '0', Nat.digitChar (n / 16), Nat.digitChar (n % 16)] ∧
      hexFour? '0' '0' (Nat.digitChar (n / 16)) (Nat.digitChar (n % 16)) = some n := by
    decide
  exact ⟨_, _, _, _, hall n h⟩

section

variable (opened : List Char)

/-- A character is read back as its code point. -/
theorem readCodes_escapeChar (c : Char) {r : List Char} (hr : r ≠ []) :
    readCodes opened (escapeChar c ++ r) =
      (readCodes opened r).map fun p => (c.toNat :: p.1, p.2) := by
  have hletter : ∀ {e : Char} {n : ℕ}, e ≠ 'u' → escaped? e = some n →
      readCodes opened ('\\' :: e :: r) =
        (readCodes opened r).map fun p => (n :: p.1, p.2) := by
    intro e n hu he
    rw [readCodes, he]
    exact fun _ _ _ _ _ h _ => hu h
  unfold escapeChar
  split_ifs with hquote hslash hfeed hreturn htab hback hform hcontrol
  · subst hquote
    exact hletter (by decide) rfl
  · subst hslash
    exact hletter (by decide) rfl
  · subst hfeed
    exact hletter (by decide) rfl
  · subst hreturn
    exact hletter (by decide) rfl
  · subst htab
    exact hletter (by decide) rfl
  · rw [hback]
    exact hletter (by decide) rfl
  · rw [hform]
    exact hletter (by decide) rfl
  · obtain ⟨a, b, d, e, hdigits, hvalue⟩ := hexFour?_hex hcontrol
    rw [hdigits]
    show readCodes opened ('\\' :: 'u' :: a :: b :: d :: e :: r) = _
    rw [readCodes, hvalue]
    exact if_neg (mt List.isEmpty_iff.mp hr)
  · show readCodes opened (c :: r) = _
    rw [readCodes, if_neg hslash, if_neg hcontrol]
    · exact hquote
    · exact fun _ _ _ _ _ h _ => hslash h
    · exact fun _ _ h _ => hslash h

theorem readCodes_flatMap_escapeChar (cs r : List Char) :
    readCodes opened (cs.flatMap escapeChar ++ '"' :: r) = .ok (cs.map Char.toNat, r) := by
  induction cs with
  | nil => rw [List.flatMap_nil, List.nil_append, readCodes]; rfl
  | cons c cs ih =>
      rw [List.flatMap_cons, List.append_assoc, readCodes_escapeChar opened c (by simp), ih]
      rfl

end

/-- The code point of a character is no surrogate. -/
theorem isScalar_toNat (c : Char) : isScalar c.toNat = true := by
  have hvalid : c.toNat < 0xd800 ∨ 0xdfff < c.toNat ∧ c.toNat < 0x110000 := c.valid
  simp only [isScalar, Bool.or_eq_true, Bool.and_eq_true, decide_eq_true_eq]
  omega

theorem joinPairs_eq_self {codes : List ℕ} (h : ∀ n ∈ codes, isScalar n = true) :
    joinPairs codes = codes := by
  fun_induction joinPairs codes with
  | case1 high low r hpair ih =>
      have hscalar := h high List.mem_cons_self
      simp only [isScalar, isHighSurrogate, Bool.or_eq_true, Bool.and_eq_true,
        decide_eq_true_eq] at hscalar hpair
      omega
  | case2 high low r hpair ih =>
      rw [ih fun n hn => h n (List.mem_cons_of_mem _ hn)]
  | case3 r => rfl

section

variable (s : String)

theorem joinPairs_toNat : joinPairs (s.toList.map Char.toNat) = s.toList.map Char.toNat := by
  refine joinPairs_eq_self fun n hn => ?_
  obtain ⟨c, -, rfl⟩ := List.mem_map.mp hn
  exact isScalar_toNat c

theorem ofCodes_toNat : ofCodes (s.toList.map Char.toNat) = .text s := by
  have hall : (s.toList.map Char.toNat).all isScalar = true := by
    simp [isScalar_toNat]
  have hback : (s.toList.map Char.toNat).map Char.ofNat = s.toList := by
    rw [List.map_map, show Char.ofNat ∘ Char.toNat = id from funext Char.ofNat_toNat, List.map_id]
  have htext : textOfCodes? (s.toList.map Char.toNat) = some s := by
    rw [textOfCodes?, if_pos hall, hback, String.ofList_toList]
  unfold ofCodes
  simp only [joinPairs_toNat, htext]

theorem keyOfCodes_toNat : keyOfCodes (s.toList.map Char.toNat) = s := by
  have hback : (s.toList.map Char.toNat).map
      (fun n => if isScalar n then Char.ofNat n else Char.ofNat 0xfffd) = s.toList := by
    rw [List.map_map]
    conv => rhs; rw [← List.map_id s.toList]
    refine List.map_congr_left fun c _ => ?_
    show (if isScalar c.toNat then Char.ofNat c.toNat else _) = c
    rw [if_pos (isScalar_toNat c), Char.ofNat_toNat]
  rw [keyOfCodes, joinPairs_toNat, hback, String.ofList_toList]

end

theorem toList_textLiteral (s : String) :
    (textLiteral s).toList = '"' :: (s.toList.flatMap escapeChar ++ ['"']) := by
  rw [textLiteral, String.toList_ofList, List.cons_append]

/-! ## Objects -/

theorem put_of_new {key : String} {v : Value} {es : Entries} (h : key ∉ es.keys) :
    es.put key v = es ++ [(key, v)] := by
  induction es with
  | nil => rfl
  | cons e es ih =>
      obtain ⟨k, w⟩ := e
      simp only [Entries.keys, List.map_cons, List.mem_cons, not_or] at h
      rw [Entries.put, if_neg (Ne.symm h.1), ih h.2, List.cons_append]

/-- Pairs with different keys are collected as they are. -/
theorem ofPairs_eq_self {pairs : Entries} (h : pairs.keys.Nodup) :
    Entries.ofPairs pairs = pairs := by
  -- The fold goes on from what was collected, so the induction is for any front of entries.
  have hstep : ∀ front : Entries, (front ++ pairs).keys.Nodup →
      pairs.foldl (fun es e => Entries.put e.1 e.2 es) front = front ++ pairs := by
    clear h
    induction pairs with
    | nil => exact fun front _ => (List.append_nil front).symm
    | cons e pairs ih =>
        intro front h
        obtain ⟨k, v⟩ := e
        have hnew : k ∉ front.keys := by
          intro hmem
          rw [Entries.keys, List.map_append, List.nodup_append] at h
          exact h.2.2 k hmem k List.mem_cons_self rfl
        have happend : front ++ [(k, v)] ++ pairs = front ++ (k, v) :: pairs := by simp
        show pairs.foldl _ (front.put k v) = _
        rw [put_of_new hnew, ih _ (happend ▸ h), happend]
  exact hstep [] h

/-! ## What may stand around a value -/

/-- What is read as an atom does not begin like a text, a list, an object or the end of a list,
nor with a gap. -/
theorem head_of_readAtom {cs : List Char} {p : Value × List Char} (h : readAtom cs = .ok p) :
    ∃ c r, cs = c :: r ∧ c ≠ '"' ∧ c ≠ '[' ∧ c ≠ '\x7b' ∧ c ≠ ']' ∧ isGap c = false := by
  cases cs with
  | nil => cases h
  | cons c r =>
      refine ⟨c, r, rfl, ?_, ?_, ?_, ?_, ?_⟩
      · rintro rfl
        cases h
      · rintro rfl
        cases h
      · rintro rfl
        cases h
      · rintro rfl
        cases h
      · by_contra hgap
        simp only [isGap, Bool.not_eq_false, Bool.or_eq_true, decide_eq_true_eq] at hgap
        rcases hgap with ((rfl | rfl) | rfl) | rfl <;> cases h

theorem readValue_eq_readAtom {c : Char} {r : List Char} (hquote : c ≠ '"') (hlist : c ≠ '[')
    (hobject : c ≠ '\x7b') (fuel : ℕ) : readValue (fuel + 1) (c :: r) = readAtom (c :: r) := by
  rw [readValue]
  · exact fun _ hc => hquote (List.cons.inj hc).1
  · exact fun _ hc => hlist (List.cons.inj hc).1
  · exact fun _ hc => hobject (List.cons.inj hc).1

theorem readValue_of_readAtom {cs : List Char} {p : Value × List Char}
    (h : readAtom cs = .ok p) (fuel : ℕ) : readValue (fuel + 1) cs = .ok p := by
  obtain ⟨c, r, rfl, hquote, hlist, hobject, -, -⟩ := head_of_readAtom h
  rw [readValue_eq_readAtom hquote hlist hobject, h]

theorem skipGap_cons {c : Char} (h : isGap c = false) (r : List Char) :
    skipGap (c :: r) = c :: r := by
  rw [skipGap, List.dropWhile_cons_of_neg (by rw [h]; decide)]

/-- A mark that is no part of a number ends it. -/
theorem endsNumber_cons {c : Char} (h : isDigit c = false ∧ c ≠ '.' ∧ c ≠ 'e' ∧ c ≠ 'E')
    (r : List Char) : EndsNumber (c :: r) := by
  intro d hd
  cases hd
  exact h

theorem endsNumber_nil : EndsNumber [] := fun _ h => by cases h

/-! ## The grammar -/

/-- Whether characters are only gaps. -/
def IsGaps (g : List Char) : Prop := ∀ c ∈ g, isGap c = true

theorem isGaps_nil : IsGaps [] := fun _ h => by cases h

theorem skipGap_append {g : List Char} (hg : IsGaps g) {c : Char} (hc : isGap c = false)
    (r : List Char) : skipGap (g ++ c :: r) = c :: r := by
  rw [skipGap, List.dropWhile_append_of_pos hg]
  exact skipGap_cons hc r

/-- The characters of a key and the colon behind it, with what comes then. -/
def keyed (k : String) (cs : List Char) : List Char :=
  '"' :: (k.toList.flatMap escapeChar ++ '"' :: ':' :: cs)

theorem keyed_append (k : String) (cs rest : List Char) :
    keyed k cs ++ rest = keyed k (cs ++ rest) := by
  simp only [keyed, List.cons_append, List.append_assoc]

theorem length_keyed (k : String) (cs : List Char) :
    (keyed k cs).length = (k.toList.flatMap escapeChar).length + 3 + cs.length := by
  simp only [keyed, List.length_cons, List.length_append]
  omega

mutual

/-- Whether characters denote a value. -/
inductive Denotes : Value → List Char → Prop
  | atom {v : Value} {cs : List Char}
      (h : ∀ rest, EndsNumber rest → readAtom (cs ++ rest) = .ok (v, rest)) : Denotes v cs
  | text (s : String) : Denotes (.text s) ('"' :: (s.toList.flatMap escapeChar ++ ['"']))
  | emptyList : Denotes (.list []) ['[', ']']
  | list {vs : List Value} {g cs : List Char} (hg : IsGaps g) (h : DenotesItems vs cs) :
      Denotes (.list vs) ('[' :: (g ++ cs))
  | emptyObject : Denotes (.object []) ['\x7b', '\x7d']
  | object {es : Entries} {g cs : List Char} (hg : IsGaps g) (hkeys : es.keys.Nodup)
      (h : DenotesPairs es cs) : Denotes (.object es) ('\x7b' :: (g ++ cs))

/-- Whether characters denote the items of a list up to its end. -/
inductive DenotesItems : List Value → List Char → Prop
  | last {v : Value} {cs g : List Char} (h : Denotes v cs) (hg : IsGaps g) :
      DenotesItems [v] (cs ++ (g ++ [']']))
  | more {v : Value} {vs : List Value} {cs g ds : List Char} (h : Denotes v cs) (hg : IsGaps g)
      (hrest : DenotesItems vs ds) : DenotesItems (v :: vs) (cs ++ ',' :: (g ++ ds))

/-- Whether characters denote the entries of an object up to its end. -/
inductive DenotesPairs : Entries → List Char → Prop
  | last {k : String} {v : Value} {g cs g' : List Char} (hg : IsGaps g) (h : Denotes v cs)
      (hg' : IsGaps g') : DenotesPairs [(k, v)] (keyed k (g ++ (cs ++ (g' ++ ['\x7d']))))
  | more {k : String} {v : Value} {es : Entries} {g cs g' ds : List Char} (hg : IsGaps g)
      (h : Denotes v cs) (hg' : IsGaps g') (hrest : DenotesPairs es ds) :
      DenotesPairs ((k, v) :: es) (keyed k (g ++ (cs ++ ',' :: (g' ++ ds))))

end

/-- What denotes a value begins neither with a gap nor like the end of a list. -/
theorem Denotes.head {v : Value} {cs : List Char} (h : Denotes v cs) :
    ∃ c r, cs = c :: r ∧ c ≠ ']' ∧ isGap c = false := by
  cases h with
  | atom h =>
      have hread := h [] endsNumber_nil
      rw [List.append_nil] at hread
      obtain ⟨c, r, heq, -, -, -, hend, hgap⟩ := head_of_readAtom hread
      exact ⟨c, r, heq, hend, hgap⟩
  | text => exact ⟨_, _, rfl, by decide, rfl⟩
  | emptyList => exact ⟨_, _, rfl, by decide, rfl⟩
  | list => exact ⟨_, _, rfl, by decide, rfl⟩
  | emptyObject => exact ⟨_, _, rfl, by decide, rfl⟩
  | object => exact ⟨_, _, rfl, by decide, rfl⟩

/-- Nor does it begin with a byte order mark. -/
theorem Denotes.head_ne_orderMark {v : Value} {cs : List Char} (h : Denotes v cs) :
    cs.head? ≠ some '\uFEFF' := by
  cases h with
  | atom h =>
      intro hmark
      obtain ⟨r, rfl⟩ := List.head?_eq_some_iff.mp hmark
      cases h [] endsNumber_nil
  | text | emptyList | list | emptyObject | object => simp

theorem DenotesItems.head {vs : List Value} {cs : List Char} (h : DenotesItems vs cs) :
    ∃ c r, cs = c :: r ∧ c ≠ ']' ∧ isGap c = false := by
  cases h with
  | last h _ | more h _ _ =>
      obtain ⟨c, r, rfl, hend, hgap⟩ := h.head
      exact ⟨c, _, rfl, hend, hgap⟩

theorem DenotesPairs.head {es : Entries} {cs : List Char} (h : DenotesPairs es cs) :
    ∃ r, cs = '"' :: r := by
  cases h with
  | last => exact ⟨_, rfl⟩
  | more => exact ⟨_, rfl⟩

/-! ## Reading -/

/-- The reader of a list goes on with its items. -/
theorem readValue_list {g ds : List Char} (hg : IsGaps g)
    (hhead : ∃ c r, ds = c :: r ∧ c ≠ ']' ∧ isGap c = false) (fuel : ℕ) :
    readValue (fuel + 1) ('[' :: (g ++ ds)) =
      (readItems fuel ds).map fun (items, rest) => (.list items, rest) := by
  obtain ⟨c, r, rfl, hend, hgap⟩ := hhead
  rw [readValue, skipGap_append hg hgap]
  split
  · rename_i h
    exact absurd (List.cons.inj h).1 hend
  · rfl

/-- The reader of an object goes on with its entries. -/
theorem readValue_object {g r : List Char} (hg : IsGaps g) (fuel : ℕ) :
    readValue (fuel + 1) ('\x7b' :: (g ++ '"' :: r)) =
      (readPairs fuel ('"' :: r)).map fun (pairs, rest) =>
        (.object (Entries.ofPairs pairs), rest) := by
  rw [readValue, skipGap_append hg rfl]
  split
  · rename_i h
    exact absurd (List.cons.inj h).1 (by decide)
  · rfl

/-- The reader of entries goes on with the value behind a key. -/
theorem readPairs_keyed (k : String) {g cs : List Char} (hg : IsGaps g)
    (hhead : ∃ c r, cs = c :: r ∧ isGap c = false) (fuel : ℕ) :
    readPairs (fuel + 1) (keyed k (g ++ cs)) =
      match readValue fuel cs with
      | .error stop => .error stop
      | .ok (v, r) =>
        match skipGap r with
        | '\x7d' :: rest => .ok ([(k, v)], rest)
        | ',' :: r => (readPairs fuel (skipGap r)).map fun (es, rest) => ((k, v) :: es, rest)
        | r => .error (.broken .comma r) := by
  obtain ⟨c, r, rfl, hgap⟩ := hhead
  have hread := readPairs.eq_def (fuel + 1) (keyed k (g ++ c :: r))
  simp only [keyed, readCodes_flatMap_escapeChar, skipGap_cons (show isGap ':' = false from rfl),
    skipGap_append hg hgap, keyOfCodes_toNat] at hread
  exact hread

/-- A gap in front of a mark that is no part of a number does not continue one either. -/
theorem endsNumber_gaps {g : List Char} (hg : IsGaps g) {c : Char}
    (h : isDigit c = false ∧ c ≠ '.' ∧ c ≠ 'e' ∧ c ≠ 'E') (r : List Char) :
    EndsNumber (g ++ c :: r) := by
  cases g with
  | nil => exact endsNumber_cons h r
  | cons d g =>
      refine endsNumber_cons ?_ _
      have hd : isGap d = true := hg d List.mem_cons_self
      simp only [isGap, Bool.or_eq_true, decide_eq_true_eq] at hd
      rcases hd with ((rfl | rfl) | rfl) | rfl <;> decide

mutual

/-- What denotes a value is read as it, whatever follows that does not continue a number. -/
theorem readValue_of_denotes {v : Value} {cs : List Char} (h : Denotes v cs) (fuel : ℕ)
    (hfuel : cs.length < fuel) (rest : List Char) (hrest : EndsNumber rest) :
    readValue fuel (cs ++ rest) = .ok (v, rest) := by
  -- One unit of fuel is spent on each level, and each level has a character in front of the next.
  obtain ⟨fuel, rfl⟩ : ∃ f, fuel = f + 1 := ⟨fuel - 1, by omega⟩
  cases h with
  | atom h => exact readValue_of_readAtom (h rest hrest) fuel
  | text s =>
      rw [List.cons_append, List.append_assoc, List.singleton_append, readValue,
        readCodes_flatMap_escapeChar]
      show Except.ok (ofCodes (s.toList.map Char.toNat), rest) = _
      rw [ofCodes_toNat]
  | emptyList => rfl
  | @list vs g ds hg h =>
      simp only [List.length_cons, List.length_append] at hfuel
      have hitems := readItems_of_denotes h fuel (by omega) rest
      obtain ⟨c, r, hds, hend, hgap⟩ := h.head
      rw [List.cons_append, List.append_assoc,
        readValue_list hg ⟨c, r ++ rest, by rw [hds]; rfl, hend, hgap⟩, hitems]
      rfl
  | emptyObject => rfl
  | @object es g ds hg hkeys h =>
      simp only [List.length_cons, List.length_append] at hfuel
      have hpairs := readPairs_of_denotes h fuel (by omega) rest
      obtain ⟨r, hds⟩ := h.head
      rw [hds, List.cons_append] at hpairs
      rw [List.cons_append, List.append_assoc, hds, List.cons_append, readValue_object hg, hpairs]
      show Except.ok (Value.object (Entries.ofPairs es), rest) = _
      rw [ofPairs_eq_self hkeys]
  termination_by fuel

/-- Items are read up to the end of the list. -/
theorem readItems_of_denotes {vs : List Value} {cs : List Char} (h : DenotesItems vs cs) (fuel : ℕ)
    (hfuel : cs.length < fuel) (rest : List Char) :
    readItems fuel (cs ++ rest) = .ok (vs, rest) := by
  obtain ⟨fuel, rfl⟩ : ∃ f, fuel = f + 1 := ⟨fuel - 1, by omega⟩
  cases h with
  | @last v cs g h hg =>
      simp only [List.length_append, List.length_cons] at hfuel
      have hends : EndsNumber (g ++ ']' :: rest) :=
        endsNumber_gaps hg (by decide) rest
      rw [List.append_assoc, List.append_assoc, List.singleton_append, readItems,
        readValue_of_denotes h fuel (by omega) _ hends]
      simp only [skipGap_append hg (show isGap ']' = false from rfl)]
  | @more v vs cs g ds h hg hrest =>
      simp only [List.length_append, List.length_cons] at hfuel
      have hitems := readItems_of_denotes hrest fuel (by omega) rest
      obtain ⟨c, r, hds, -, hgap⟩ := hrest.head
      rw [List.append_assoc, List.cons_append, List.append_assoc, readItems,
        readValue_of_denotes h fuel (by omega) _ (endsNumber_cons (by decide) _)]
      simp only [skipGap_cons (show isGap ',' = false from rfl)]
      rw [hds, List.cons_append] at hitems ⊢
      rw [skipGap_append hg hgap, hitems]
      rfl
  termination_by fuel

/-- Entries are read up to the end of the object. -/
theorem readPairs_of_denotes {es : Entries} {cs : List Char} (h : DenotesPairs es cs) (fuel : ℕ)
    (hfuel : cs.length < fuel) (rest : List Char) :
    readPairs fuel (cs ++ rest) = .ok (es, rest) := by
  obtain ⟨fuel, rfl⟩ : ∃ f, fuel = f + 1 := ⟨fuel - 1, by omega⟩
  cases h with
  | @last k v g cs g' hg h hg' =>
      have hlength := hfuel
      rw [length_keyed] at hlength
      simp only [List.length_append, List.length_cons] at hlength
      obtain ⟨c, r, hcs, -, hgap⟩ := h.head
      have hvalue := readValue_of_denotes h fuel (by omega) _
        (endsNumber_gaps hg' (show isDigit '\x7d' = false ∧ _ by decide) rest)
      have htext : keyed k (g ++ (cs ++ (g' ++ ['\x7d']))) ++ rest =
          keyed k (g ++ (cs ++ (g' ++ '\x7d' :: rest))) := by
        simp only [keyed_append, List.append_assoc, List.singleton_append]
      rw [htext, readPairs_keyed k hg ⟨c, _, by rw [hcs]; rfl, hgap⟩, hvalue]
      simp only [skipGap_append hg' (show isGap '\x7d' = false from rfl)]
  | @more k v es g cs g' ds hg h hg' hrest =>
      have hlength := hfuel
      rw [length_keyed] at hlength
      simp only [List.length_append, List.length_cons] at hlength
      have hpairs := readPairs_of_denotes hrest fuel (by omega) rest
      obtain ⟨c, r, hcs, -, hgap⟩ := h.head
      obtain ⟨r', hds⟩ := hrest.head
      have hvalue := readValue_of_denotes h fuel (by omega) (',' :: (g' ++ (ds ++ rest)))
        (endsNumber_cons (show isDigit ',' = false ∧ _ by decide) _)
      have htext : keyed k (g ++ (cs ++ ',' :: (g' ++ ds))) ++ rest =
          keyed k (g ++ (cs ++ ',' :: (g' ++ (ds ++ rest)))) := by
        simp only [keyed_append, List.append_assoc, List.cons_append]
      rw [htext, readPairs_keyed k hg ⟨c, _, by rw [hcs]; rfl, hgap⟩, hvalue]
      simp only [skipGap_cons (show isGap ',' = false from rfl)]
      rw [hds, List.cons_append] at hpairs ⊢
      rw [skipGap_append hg' rfl, hpairs]
      rfl
  termination_by fuel

end

/-- A text that denotes a value is read as it. -/
theorem parse_of_denotes {v : Value} {text : String} (h : Denotes v text.toList) :
    parse text = .ok v := by
  obtain ⟨c, r, hc, -, hgap⟩ := h.head
  have hread := readValue_of_denotes h (2 * text.toList.length + 2) (by omega) [] endsNumber_nil
  rw [List.append_nil] at hread
  have hskip : skipGap text.toList = text.toList := by
    rw [hc, skipGap_cons hgap]
  rw [parse, readAll, if_neg h.head_ne_orderMark]
  simp only [hskip, hread]
  rfl

/-! ## Joined parts -/

/-- Whether characters denote an entry of an object. -/
def DenotesEntry (e : String × Value) (cs : List Char) : Prop :=
  ∃ g ds, IsGaps g ∧ Denotes e.2 ds ∧ cs = keyed e.1 (g ++ ds)

theorem toList_intercalate_cons (sep t : String) {ts : List String} (h : ts ≠ []) :
    (String.intercalate sep (t :: ts)).toList =
      t.toList ++ (sep.toList ++ (String.intercalate sep ts).toList) := by
  rw [String.intercalate_cons_of_ne_nil h, String.toList_append, String.toList_append,
    List.append_assoc]

section

variable {sep : String} {g g' : List Char} {ts : List String}

theorem DenotesItems.join (hsep : sep.toList = ',' :: g) (hg : IsGaps g) (hg' : IsGaps g')
    {vs : List Value} (h : List.Forall₂ (fun v t => Denotes v t.toList) vs ts) (hne : vs ≠ []) :
    DenotesItems vs ((String.intercalate sep ts).toList ++ (g' ++ [']'])) := by
  induction h with
  | nil => exact absurd rfl hne
  | @cons v t vs ts hv hvs ih =>
      by_cases hmore : vs = []
      · subst hmore
        cases hvs
        rw [String.intercalate_singleton]
        exact .last hv hg'
      · have hts : ts ≠ [] := fun hnil => hmore (List.forall₂_nil_right_iff.mp (hnil ▸ hvs))
        rw [toList_intercalate_cons sep t hts, hsep]
        simp only [List.append_assoc, List.cons_append]
        exact .more hv hg (ih hmore)

theorem DenotesPairs.join (hsep : sep.toList = ',' :: g) (hg : IsGaps g) (hg' : IsGaps g')
    {es : Entries} (h : List.Forall₂ (fun e t => DenotesEntry e t.toList) es ts) (hne : es ≠ []) :
    DenotesPairs es ((String.intercalate sep ts).toList ++ (g' ++ ['\x7d'])) := by
  induction h with
  | nil => exact absurd rfl hne
  | @cons e t es ts he hes ih =>
      obtain ⟨k, v⟩ := e
      obtain ⟨g₀, ds, hg₀, hv, ht⟩ := he
      by_cases hmore : es = []
      · subst hmore
        cases hes
        rw [String.intercalate_singleton, ht, keyed_append, List.append_assoc]
        exact .last hg₀ hv hg'
      · have hts : ts ≠ [] := fun hnil => hmore (List.forall₂_nil_right_iff.mp (hnil ▸ hes))
        rw [toList_intercalate_cons sep t hts, hsep, ht]
        simp only [keyed_append, List.append_assoc, List.cons_append]
        exact .more hg₀ hv hg (ih hmore)

end

end Retouch.Value
