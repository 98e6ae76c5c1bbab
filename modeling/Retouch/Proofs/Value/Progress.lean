/-
  Where readers end.

  A reader that has a result leaves an end of its characters that is shorter, and one that stops
  leaves an end of them (`Moves`).  So a breach of the grammar is at a place in the text, with what
  was read in front of it (`front_of_parse`), and the fuel that a text is read with lasts: with more
  of it the same is read (`readValue_eq_of_le`).
-/
import Retouch.Proofs.Value.Grammar

namespace Retouch.Value

/-! ## What readers leave -/

/-- Whether characters end with others and are more. -/
def Behind (cs rest : List Char) : Prop := rest <:+ cs ∧ rest.length < cs.length

namespace Behind

variable {cs ds rest : List Char}

theorem cons (c : Char) (r : List Char) : Behind (c :: r) r :=
  ⟨List.suffix_cons c r, Nat.lt_succ_self _⟩

theorem trans_suffix (h : Behind cs ds) (hrest : rest <:+ ds) : Behind cs rest :=
  ⟨hrest.trans h.1, Nat.lt_of_le_of_lt hrest.length_le h.2⟩

theorem of_suffix (h : ds <:+ cs) (hrest : Behind ds rest) : Behind cs rest :=
  ⟨hrest.1.trans h, Nat.lt_of_lt_of_le hrest.2 h.length_le⟩

/-- What is left of a text is behind it if something was taken. -/
theorem dropWhile {p : Char → Bool} (h : cs.takeWhile p ≠ []) : Behind cs (cs.dropWhile p) := by
  refine ⟨List.dropWhile_suffix p, ?_⟩
  have hlength := congrArg List.length (List.takeWhile_append_dropWhile (p := p) (l := cs))
  have hpos := List.length_pos_iff.mpr h
  rw [List.length_append] at hlength
  omega

end Behind

/-- Whether a reading from some characters leaves characters behind them if it has a result, and an
    end of them if it stops. -/
def Moves {α : Type} (cs : List Char) : Reading α → Prop
  | .ok (_, rest) => Behind cs rest
  | .error (.broken _ rest) => rest <:+ cs
  | .error (.tooManyDigits _) => True

namespace Moves

variable {α β : Type} {cs ds : List Char} {x : Reading α}

/-- What moves in an end of characters moves in them. -/
theorem mono (hx : Moves ds x) (h : ds <:+ cs) : Moves cs x :=
  match x, hx with
  | .ok _, hx => hx.of_suffix h
  | .error (.broken _ _), hx => hx.trans h
  | .error (.tooManyDigits _), _ => trivial

theorem map (hx : Moves cs x) {f : α × List Char → β × List Char} (hf : ∀ p, (f p).2 = p.2) :
    Moves cs (x.map f) := by
  match x, hx with
  | .ok p, hx =>
      show Behind cs (f p).2
      rwa [hf]
  | .error (.broken _ _), hx => exact hx
  | .error (.tooManyDigits _), _ => trivial

theorem of_ok (hx : Moves cs x) {a : α} {rest : List Char} (h : x = .ok (a, rest)) :
    Behind cs rest := by
  subst h
  exact hx

/-- A stop is passed on. -/
theorem of_error (hx : Moves cs x) {stop : Stop} (h : x = .error stop) :
    Moves (α := β) cs (.error stop) := by
  subst h
  cases stop with
  | broken => exact hx
  | tooManyDigits => trivial

end Moves

/-! ## Gaps -/

theorem skipGap_suffix (cs : List Char) : skipGap cs <:+ cs := List.dropWhile_suffix _

/-- What stands behind a gap and the mark that follows it. -/
theorem Behind.mark {cs r r' : List Char} {c : Char} (h : Behind cs r)
    (hmark : skipGap r = c :: r') : Behind cs r' :=
  h.trans_suffix ((List.suffix_cons c r').trans (hmark ▸ skipGap_suffix r))

/-! ## Texts -/

theorem moves_readCodes {opened cs : List Char} (h : Behind opened cs) :
    Moves opened (readCodes opened cs) := by
  fun_induction readCodes opened cs with
  | case1 r => exact h.trans_suffix (List.suffix_cons _ r)
  | case2 a b c d r => exact (List.suffix_cons _ _).trans h.1
  | case3 a b c d r n hn hr ih =>
      exact (ih (h.trans_suffix (List.suffix_append ['\\', 'u', a, b, c, d] r))).map fun _ => rfl
  | case4 a b c d r => exact (List.suffix_cons _ _).trans h.1
  | case5 e r hu n hn ih =>
      exact (ih (h.trans_suffix (List.suffix_append ['\\', e] r))).map fun _ => rfl
  | case6 r => exact (List.suffix_cons _ _).trans h.1
  | case7 e r => exact h.1
  | case8 r => exact List.suffix_rfl
  | case9 c r => exact h.1
  | case10 c r hquote hcode hescape hslash hcontrol ih =>
      exact (ih (h.trans_suffix (List.suffix_cons c r))).map fun _ => rfl
  | case11 => exact List.suffix_rfl

/-! ## Numbers and words -/

theorem behind_takeWhole {cs whole r : List Char} (h : takeWhole cs = some (whole, r)) :
    Behind cs r := by
  unfold takeWhole at h
  split at h
  · cases h
    exact .cons _ _
  · dsimp only at h
    split at h
    · cases h
    · rename_i hds
      cases h
      exact .dropWhile (mt List.isEmpty_iff.mpr hds)

theorem takeFraction_suffix {cs : List Char} {p : List Char × List Char}
    (h : takeFraction cs = some p) : p.2 <:+ cs := by
  unfold takeFraction at h
  split at h
  · dsimp only at h
    split at h
    · cases h
    · cases h
      exact (List.dropWhile_suffix _).trans (List.suffix_cons _ _)
  · cases h

theorem takeSign_suffix (cs : List Char) : (Number.takeSign cs).2 <:+ cs := by
  unfold Number.takeSign
  split
  · exact List.suffix_cons _ _
  · exact List.suffix_cons _ _
  · exact List.suffix_rfl

theorem takeExponent?_suffix {cs : List Char} {p : Int × List Char}
    (h : Number.takeExponent? cs = some p) : p.2 <:+ cs := by
  unfold Number.takeExponent? at h
  split at h
  · rename_i c r
    split at h
    · dsimp only at h
      split at h
      · cases h
      · cases h
        exact (List.dropWhile_suffix _).trans ((takeSign_suffix r).trans (List.suffix_cons c r))
    · cases h
  · cases h

/-- What an optional part of a number leaves. -/
theorem getD_suffix {α : Type} {o : Option (α × List Char)} {r : List Char}
    (h : ∀ p ∈ o, p.2 <:+ r) : (o.map (·.2)).getD r <:+ r := by
  cases o with
  | none => exact List.suffix_rfl
  | some p => exact h p rfl

theorem moves_readUnsigned (negative : Bool) (cs : List Char) :
    Moves (if negative then '-' :: cs else cs) (readUnsigned negative cs) := by
  have hsign : cs <:+ if negative then '-' :: cs else cs := by
    split
    · exact List.suffix_cons _ _
    · exact List.suffix_rfl
  unfold readUnsigned
  generalize (if negative then '-' :: cs else cs) = start at hsign ⊢
  split
  · exact List.suffix_rfl
  · rename_i whole r hwhole
    -- The optional parts only shorten what the digits of the whole part leave.
    have hrest : ∀ r' rest, r' <:+ r → rest <:+ r' → Behind start rest := fun r' rest hr' hrest =>
      ((behind_takeWhole hwhole).of_suffix hsign).trans_suffix (hrest.trans hr')
    have hends := hrest _ _ (getD_suffix fun _ => takeFraction_suffix)
      (getD_suffix fun _ => takeExponent?_suffix)
    dsimp only
    split
    · split
      · trivial
      · exact hends
    · exact hends

theorem skipWord_suffix {word cs rest : List Char} (h : skipWord word cs = some rest) :
    rest <:+ cs ∧ rest.length + word.length = cs.length := by
  fun_induction skipWord word cs with
  | case1 cs =>
      cases h
      exact ⟨List.suffix_rfl, rfl⟩
  | case2 ws c cs ih =>
      obtain ⟨hsuffix, hlength⟩ := ih h
      exact ⟨hsuffix.trans (List.suffix_cons _ _), by simp only [List.length_cons]; omega⟩
  | case3 | case4 => cases h

theorem moves_readWord {word : String} (hword : word ≠ "") (v : Value) (cs : List Char) :
    Moves cs (readWord word v cs) := by
  unfold readWord
  split
  · rename_i rest h
    obtain ⟨hsuffix, hlength⟩ := skipWord_suffix h
    have hpos : 0 < word.toList.length := by
      rw [List.length_pos_iff]
      simpa using hword
    exact ⟨hsuffix, by omega⟩
  · exact List.suffix_rfl

theorem moves_readAtom (cs : List Char) : Moves cs (readAtom cs) := by
  unfold readAtom
  split
  iterate 6 exact moves_readWord (by decide) _ _
  · exact moves_readUnsigned true _
  · exact moves_readUnsigned false cs

/-! ## Values -/

/-- Each of the readers goes on with less fuel, so the induction is on the fuel of all three. -/
theorem moves_read (fuel : Nat) :
    (∀ cs, Moves cs (readValue fuel cs)) ∧ (∀ cs, Moves cs (readItems fuel cs)) ∧
      ∀ cs, Moves cs (readPairs fuel cs) := by
  induction fuel with
  | zero => exact ⟨fun _ => List.suffix_rfl, fun _ => List.suffix_rfl, fun _ => List.suffix_rfl⟩
  | succ fuel ih =>
      obtain ⟨hvalue, hitems, hpairs⟩ := ih
      refine ⟨fun cs => ?value, fun cs => ?items, fun cs => ?pairs⟩
      case value =>
        unfold readValue
        split
        · exact List.suffix_rfl
        · exact (moves_readCodes (.cons _ _)).map fun _ => rfl
        · cases ‹fuel + 1 = _›
          rename_i r
          have hr := Behind.cons '[' r
          split
          · exact hr.mark ‹_›
          · exact ((hitems _).mono ((skipGap_suffix r).trans hr.1)).map fun _ => rfl
        · cases ‹fuel + 1 = _›
          rename_i r
          have hr := Behind.cons '\x7b' r
          split
          · exact hr.mark ‹_›
          · exact ((hpairs _).mono ((skipGap_suffix r).trans hr.1)).map fun _ => rfl
        · exact moves_readAtom _
      case items =>
        unfold readItems
        split
        · exact (hvalue cs).of_error ‹_›
        · rename_i v r hread
          have hr := (hvalue cs).of_ok hread
          split
          · exact hr.mark ‹_›
          · rename_i r' hcomma
            have hrest := (skipGap_suffix r').trans (hr.mark hcomma).1
            exact ((hitems _).mono hrest).map fun _ => rfl
          · exact (skipGap_suffix r).trans hr.1
      case pairs =>
        unfold readPairs
        split
        · exact List.suffix_rfl
        · cases ‹fuel + 1 = _›
          rename_i r
          -- Key, colon, value and the mark behind it, each read from what the one before it left.
          have hcodes := moves_readCodes (Behind.cons '"' r)
          split
          · exact hcodes.of_error ‹_›
          · rename_i codes r hread
            have hr := hcodes.of_ok hread
            split
            · rename_i r' hcolon
              have hread := (hvalue _).mono ((skipGap_suffix r').trans (hr.mark hcolon).1)
              split
              · exact hread.of_error ‹_›
              · rename_i v r hvalue
                have hr := hread.of_ok hvalue
                split
                · exact hr.mark ‹_›
                · rename_i r' hcomma
                  have hrest := (skipGap_suffix r').trans (hr.mark hcomma).1
                  exact ((hpairs _).mono hrest).map fun _ => rfl
                · exact (skipGap_suffix r).trans hr.1
            · exact (skipGap_suffix r).trans hr.1
        · exact List.suffix_rfl

/-- A text that breaks the grammar does so behind a part of it that was read, and the place is
    counted on that part. -/
theorem front_of_parse {text : String} {cause : Breach} {place : Place}
    (h : parse text = .error (.broken cause place)) :
    ∃ front rest, text.toList = front ++ rest ∧ place = .behind front := by
  obtain ⟨rest, hrest, rfl⟩ : ∃ rest, rest <:+ text.toList ∧
      place = .behind (text.toList.take (text.toList.length - rest.length)) := by
    unfold parse readAll at h
    -- The breach is a byte order mark, in the value, or something that stands behind it.
    split at h
    · cases h
      exact ⟨_, List.suffix_rfl, rfl⟩
    · have hread := (moves_read (2 * text.toList.length + 2)).1 (skipGap text.toList)
      split at h
      · rename_i stop hstop
        have hstop := hread.of_error (β := Value) hstop
        cases stop with
        | broken cause' rest =>
            cases h
            exact ⟨rest, hstop.trans (skipGap_suffix _), rfl⟩
        | tooManyDigits count => cases h
      · rename_i v rest hvalue
        split at h
        · cases h
        · cases h
          exact ⟨_, (skipGap_suffix rest).trans
            ((hread.of_ok hvalue).1.trans (skipGap_suffix _)), rfl⟩
  obtain ⟨front, hfront⟩ := hrest
  refine ⟨front, rest, hfront.symm, congrArg Place.behind ?_⟩
  rw [← hfront, List.length_append, Nat.add_sub_cancel, List.take_left]

/-! ## Fuel -/

/-- Whether the readers of values, items and entries read the same from some characters with any
    fuel that is enough for them. -/
structure Steady (cs : List Char) : Prop where
  value : ∀ f g, 2 * cs.length < f → 2 * cs.length < g → readValue f cs = readValue g cs
  items : ∀ f g, 2 * cs.length + 1 < f → 2 * cs.length + 1 < g → readItems f cs = readItems g cs
  pairs : ∀ f g, 2 * cs.length + 1 < f → 2 * cs.length + 1 < g → readPairs f cs = readPairs g cs

section

variable {cs : List Char} (shorter : ∀ r, Behind cs r → Steady r) {f g : Nat}

include shorter

theorem readValue_steady (hf : 2 * cs.length < f) (hg : 2 * cs.length < g) :
    readValue f cs = readValue g cs := by
  obtain ⟨f, rfl⟩ : ∃ k, f = k + 1 := ⟨f - 1, by omega⟩
  obtain ⟨g, rfl⟩ : ∃ k, g = k + 1 := ⟨g - 1, by omega⟩
  cases cs with
  | nil => rw [readValue, readValue] <;> nofun
  | cons c r =>
      -- Only what is behind a bracket or a brace is read with the rest of the fuel.
      have hr : Behind (c :: r) (skipGap r) := (Behind.cons c r).trans_suffix (skipGap_suffix r)
      have hlength := hr.2
      by_cases hquote : c = '"'
      · subst hquote
        rw [readValue, readValue]
      by_cases hlist : c = '['
      · subst hlist
        have hitems := (shorter _ hr).items f g (by omega) (by omega)
        rw [readValue, readValue]
        split
        · rfl
        · rw [hitems]
      by_cases hobject : c = '\x7b'
      · subst hobject
        have hpairs := (shorter _ hr).pairs f g (by omega) (by omega)
        rw [readValue, readValue]
        split
        · rfl
        · rw [hpairs]
      rw [readValue_eq_readAtom hquote hlist hobject, readValue_eq_readAtom hquote hlist hobject]

theorem readItems_steady (hf : 2 * cs.length + 1 < f) (hg : 2 * cs.length + 1 < g) :
    readItems f cs = readItems g cs := by
  obtain ⟨f, rfl⟩ : ∃ k, f = k + 1 := ⟨f - 1, by omega⟩
  obtain ⟨g, rfl⟩ : ∃ k, g = k + 1 := ⟨g - 1, by omega⟩
  have hvalue : readValue f cs = readValue g cs :=
    readValue_steady shorter (by omega) (by omega)
  rw [readItems, readItems, hvalue]
  split
  · rfl
  · rename_i v r hread
    have hr := ((moves_read g).1 cs).of_ok hread
    split
    · rfl
    · rename_i r' hcomma
      have hrest := (hr.mark hcomma).trans_suffix (skipGap_suffix r')
      have hlength := hrest.2
      rw [(shorter _ hrest).items f g (by omega) (by omega)]
    · rfl

theorem readPairs_steady (hf : 2 * cs.length + 1 < f) (hg : 2 * cs.length + 1 < g) :
    readPairs f cs = readPairs g cs := by
  obtain ⟨f, rfl⟩ : ∃ k, f = k + 1 := ⟨f - 1, by omega⟩
  obtain ⟨g, rfl⟩ : ∃ k, g = k + 1 := ⟨g - 1, by omega⟩
  by_cases hquote : ∃ r, cs = '"' :: r
  · obtain ⟨r, rfl⟩ := hquote
    rw [readPairs, readPairs]
    split
    · rfl
    · rename_i codes r hcodes
      have hr := (moves_readCodes (Behind.cons '"' _)).of_ok hcodes
      split
      · rename_i r' hcolon
        have hbehind := (hr.mark hcolon).trans_suffix (skipGap_suffix r')
        have hlength := hbehind.2
        rw [(shorter _ hbehind).value f g (by omega) (by omega)]
        split
        · rfl
        · rename_i v r hread
          have hr := (((moves_read g).1 _).of_ok hread).of_suffix hbehind.1
          split
          · rfl
          · rename_i r' hcomma
            have hrest := (hr.mark hcomma).trans_suffix (skipGap_suffix r')
            have hlength := hrest.2
            rw [(shorter _ hrest).pairs f g (by omega) (by omega)]
          · rfl
      · rfl
  · rw [readPairs, readPairs]
    · exact fun r hr => hquote ⟨r, hr⟩
    · exact fun r hr => hquote ⟨r, hr⟩

end

/-- What is read behind the first character is shorter, so the induction is on the length. -/
theorem steady (cs : List Char) : Steady cs := by
  induction h : cs.length using Nat.strongRecOn generalizing cs with
  | ind n ih =>
      have shorter : ∀ r, Behind cs r → Steady r := fun r hr => ih r.length (h ▸ hr.2) r rfl
      exact ⟨fun _ _ => readValue_steady shorter, fun _ _ => readItems_steady shorter,
        fun _ _ => readPairs_steady shorter⟩

/-- With more fuel than two units for each character the same is read. -/
theorem readValue_eq_of_le {cs : List Char} {fuel : Nat} (h : 2 * cs.length < fuel) :
    readValue fuel cs = readValue (2 * cs.length + 1) cs :=
  (steady cs).value _ _ h (Nat.lt_succ_self _)

end Retouch.Value
