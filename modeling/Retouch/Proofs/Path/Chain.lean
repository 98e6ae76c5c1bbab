/-
  Chains of filters read back.

  A chain is cut at the colons outside all parentheses.  The arguments of a filter stand inside a
  pair of them, so if they are balanced the depth is at least one all through them and no colon of
  theirs cuts.  A name that has neither colon nor parenthesis is not cut either, and the chain falls
  into the filters that it was written from (`readChain_chain`).
-/
import Retouch.Path.Filter
import Retouch.Proofs.Position

namespace Retouch

/-! ## Parentheses -/

namespace Text

/-- The depth of parentheses behind characters, from a depth on; nothing if one is closed that was
    not opened. -/
def depth? (d : Nat) : List Char → Option Nat
  | [] => some d
  | c :: r =>
    if c = '(' then depth? (d + 1) r
    else if c = ')' then if d = 0 then none else depth? (d - 1) r
    else depth? d r

/-- Whether each parenthesis of a text is closed behind where it is opened. -/
def Balanced (s : String) : Prop := depth? 0 s.toList = some 0

instance (s : String) : Decidable (Balanced s) := inferInstanceAs (Decidable (_ = _))

/-- Whether a text has no parenthesis. -/
def Flat (s : String) : Prop := ∀ c ∈ s.toList, c ≠ '(' ∧ c ≠ ')'

instance (s : String) : Decidable (Flat s) := List.decidableBAll _ _

theorem depth?_append (d : Nat) (as bs : List Char) :
    depth? d (as ++ bs) = (depth? d as).bind (depth? · bs) := by
  induction as generalizing d with
  | nil => rfl
  | cons c as ih =>
      simp only [List.cons_append, depth?]
      split
      · exact ih (d + 1)
      · split
        · split
          · rfl
          · exact ih (d - 1)
        · exact ih d

/-- What is balanced is so at every depth. -/
theorem depth?_add {d e : Nat} {cs : List Char} (h : depth? d cs = some e) (k : Nat) :
    depth? (d + k) cs = some (e + k) := by
  induction cs generalizing d with
  | nil =>
      obtain rfl := Option.some.inj h
      rfl
  | cons c cs ih =>
      rw [depth?] at h ⊢
      split at h
      · rename_i hopen
        rw [if_pos hopen, show d + k + 1 = d + 1 + k by omega]
        exact ih h
      · rename_i hopen
        rw [if_neg hopen]
        split at h
        · rename_i hclose
          rw [if_pos hclose]
          split at h
          · cases h
          · rename_i hd
            rw [if_neg (by omega), show d + k - 1 = d - 1 + k by omega]
            exact ih h
        · rename_i hclose
          rw [if_neg hclose]
          exact ih h

theorem depth?_of_flat {cs : List Char} (h : ∀ c ∈ cs, c ≠ '(' ∧ c ≠ ')') (d : Nat) :
    depth? d cs = some d := by
  induction cs with
  | nil => rfl
  | cons c cs ih =>
      obtain ⟨hopen, hclose⟩ := h c List.mem_cons_self
      rw [depth?, if_neg hopen, if_neg hclose]
      exact ih fun c hc => h c (List.mem_cons_of_mem _ hc)

variable {s t : String}

theorem Flat.append (hs : Flat s) (ht : Flat t) : Flat (s ++ t) := by
  intro c hc
  rw [String.toList_append] at hc
  exact (List.mem_append.mp hc).elim (hs c) (ht c)

theorem Flat.balanced (h : Flat s) : Balanced s := depth?_of_flat h 0

theorem Balanced.append (hs : Balanced s) (ht : Balanced t) : Balanced (s ++ t) := by
  unfold Balanced at hs ht ⊢
  rw [String.toList_append, depth?_append, hs]
  exact ht

/-- A balanced text between parentheses is balanced. -/
theorem Balanced.enclosed (h : Balanced s) : Balanced ("(" ++ s ++ ")") := by
  have hinside : depth? (0 + 1) s.toList = some (0 + 1) := depth?_add h 1
  unfold Balanced
  rw [String.toList_append, String.toList_append, List.append_assoc]
  show depth? (0 + 1) (s.toList ++ ")".toList) = some 0
  rw [depth?_append, hinside]
  rfl

/-- Balanced texts joined by a balanced one are balanced. -/
theorem Balanced.intercalate {separator : String} {ss : List String} (hsep : Balanced separator)
    (hss : ∀ s ∈ ss, Balanced s) : Balanced (String.intercalate separator ss) := by
  induction ss with
  | nil => rfl
  | cons s ss ih =>
      have hs := hss s List.mem_cons_self
      by_cases hne : ss = []
      · subst hne
        rwa [String.intercalate_singleton]
      · rw [String.intercalate_cons_of_ne_nil hne]
        exact (hs.append hsep).append (ih fun t ht => hss t (List.mem_cons_of_mem _ ht))

end Text

/-! ## Filters -/

namespace Filter

open Text

/-- Whether a filter can be told from its neighbours in a chain: its name is not empty, has no
    parenthesis and no colon, and no blank at either end, and its arguments are balanced. -/
structure Sound (f : Filter) : Prop where
  name_ne : f.name ≠ ""
  name_flat : Flat f.name
  name_whole : ':' ∉ f.name.toList
  name_trim : trimBlank f.name = f.name
  args_balanced : Balanced f.args

instance (f : Filter) : Decidable f.Sound :=
  decidable_of_iff (f.name ≠ "" ∧ Flat f.name ∧ ':' ∉ f.name.toList ∧ trimBlank f.name = f.name ∧
      Balanced f.args)
    ⟨fun ⟨h₁, h₂, h₃, h₄, h₅⟩ => ⟨h₁, h₂, h₃, h₄, h₅⟩,
      fun ⟨h₁, h₂, h₃, h₄, h₅⟩ => ⟨h₁, h₂, h₃, h₄, h₅⟩⟩

variable {f : Filter} {fs : List Filter}

theorem toList_text (f : Filter) :
    f.text.toList = f.name.toList ++ '(' :: (f.args.toList ++ [')']) := by
  unfold text
  simp only [String.toList_append, List.append_assoc]
  rfl

theorem Sound.balanced_text (h : f.Sound) : Balanced f.text := by
  have htext : f.text = f.name ++ ("(" ++ f.args ++ ")") := by
    unfold text
    simp only [String.append_assoc]
  rw [htext]
  exact h.name_flat.balanced.append h.args_balanced.enclosed

/-! ## Cutting -/

/-- Inside parentheses nothing is cut. -/
theorem cutAt_inside {d e : Nat} {cs : List Char} (h : depth? d cs = some e)
    (current rest : List Char) :
    cutAt (d + 1) current (cs ++ rest) = cutAt (e + 1) (cs.reverse ++ current) rest := by
  induction cs generalizing d current with
  | nil =>
      obtain rfl := Option.some.inj h
      rfl
  | cons c cs ih =>
      rw [depth?] at h
      -- The cutter counts one more than `depth?` does, so it is never at zero and never cuts here.
      rw [List.cons_append, cutAt, if_neg (by omega), List.reverse_cons, List.append_assoc,
        List.singleton_append]
      split at h
      · rename_i hopen
        rw [if_pos hopen]
        exact ih h (c :: current)
      · rename_i hopen
        rw [if_neg hopen]
        split at h
        · rename_i hclose
          rw [if_pos hclose]
          split at h
          · cases h
          · rename_i hd
            have hless := ih h (c :: current)
            -- The depth of the cutter is an integer, which may go below zero; here it does not.
            rwa [show ((d - 1 : Nat) : Int) + 1 = (d : Int) + 1 - 1 by omega] at hless
        · rename_i hclose
          rw [if_neg hclose]
          exact ih h (c :: current)

/-- Outside parentheses only colons cut. -/
theorem cutAt_flat {cs : List Char} (hflat : ∀ c ∈ cs, c ≠ '(' ∧ c ≠ ')') (hcolon : ':' ∉ cs)
    (current rest : List Char) :
    cutAt 0 current (cs ++ rest) = cutAt 0 (cs.reverse ++ current) rest := by
  induction cs generalizing current with
  | nil => rfl
  | cons c cs ih =>
      obtain ⟨hopen, hclose⟩ := hflat c List.mem_cons_self
      simp only [List.mem_cons, not_or] at hcolon
      rw [List.cons_append, cutAt, if_neg fun h => hcolon.1 h.1.symm, List.reverse_cons,
        List.append_assoc, List.singleton_append]
      simp only [if_neg hopen, if_neg hclose]
      exact ih (fun c hc => hflat c (List.mem_cons_of_mem _ hc)) hcolon.2 (c :: current)

/-- A written filter is not cut. -/
theorem Sound.cutAt_text (h : f.Sound) (rest : List Char) :
    cutAt 0 [] (f.text.toList ++ rest) = cutAt 0 f.text.toList.reverse rest := by
  have hname := cutAt_flat h.name_flat h.name_whole []
    ('(' :: (f.args.toList ++ ')' :: rest))
  have hopen : ∀ current r, cutAt 0 current ('(' :: r) = cutAt (0 + 1) ('(' :: current) r :=
    fun _ _ => rfl
  have hclose : ∀ current r, cutAt (0 + 1) current (')' :: r) = cutAt 0 (')' :: current) r :=
    fun _ _ => rfl
  have hargs := cutAt_inside (d := 0) h.args_balanced ('(' :: f.name.toList.reverse) (')' :: rest)
  rw [List.append_nil] at hname
  calc cutAt 0 [] (f.text.toList ++ rest)
      = cutAt 0 [] (f.name.toList ++ '(' :: (f.args.toList ++ ')' :: rest)) := by
        rw [toList_text, List.append_assoc, List.cons_append, List.append_assoc]
        rfl
    _ = cutAt 0 f.name.toList.reverse ('(' :: (f.args.toList ++ ')' :: rest)) := hname
    _ = cutAt (0 + 1) ('(' :: f.name.toList.reverse) (f.args.toList ++ ')' :: rest) :=
        hopen _ _
    _ = cutAt (0 + 1) (f.args.toList.reverse ++ '(' :: f.name.toList.reverse) (')' :: rest) :=
        hargs
    _ = cutAt 0 (')' :: (f.args.toList.reverse ++ '(' :: f.name.toList.reverse)) rest :=
        hclose _ _
    _ = cutAt 0 f.text.toList.reverse rest := by
        rw [toList_text]
        simp

/-- A chain falls into its filters. -/
theorem cutAt_chainText (h : ∀ f ∈ fs, f.Sound) (hne : fs ≠ []) :
    cutAt 0 [] (chainText fs).toList = fs.map fun f => f.text.toList := by
  induction fs with
  | nil => exact absurd rfl hne
  | cons f fs ih =>
      have hf := h f List.mem_cons_self
      have hrest : ∀ g ∈ fs, g.Sound := fun g hg => h g (List.mem_cons_of_mem _ hg)
      cases fs with
      | nil =>
          have hone := hf.cutAt_text []
          rw [List.append_nil] at hone
          show cutAt 0 [] (String.intercalate ":" [f.text]).toList = [f.text.toList]
          rw [String.intercalate_singleton, hone, cutAt, List.reverse_reverse]
      | cons g fs =>
          have hcolon : ∀ current r, cutAt 0 current (':' :: r) = current.reverse :: cutAt 0 [] r :=
            fun _ _ => rfl
          have htext : (chainText (f :: g :: fs)).toList =
              f.text.toList ++ ':' :: (chainText (g :: fs)).toList := by
            show (String.intercalate ":" (f.text :: (g :: fs).map text)).toList = _
            rw [String.intercalate_cons_of_ne_nil (by simp), String.toList_append,
              String.toList_append, List.append_assoc]
            rfl
          rw [htext, hf.cutAt_text, hcolon, List.reverse_reverse, ih hrest (by simp)]
          rfl

/-! ## Reading -/

theorem head_name_not_blank (h : f.Sound) : ∀ c ∈ f.name.toList.head?, isBlank c = false := by
  have htrim : trimBy isBlank f.name.toList = f.name.toList := by
    have hname := congrArg String.toList h.name_trim
    rwa [trimBlank, String.toList_ofList] at hname
  intro c hc
  rw [← htrim] at hc
  exact head_dropWhile_false isBlank _ c (head_reverse_dropWhile_reverse c hc)

/-- A written filter is read back. -/
theorem Sound.read_text (h : f.Sound) : read f.text.toList = .ok f := by
  have hnil : f.name.toList ≠ [] := fun hnil => h.name_ne (String.toList_eq_nil_iff.mp hnil)
  have htrim : trimBy isBlank f.text.toList = f.text.toList := by
    rw [toList_text]
    refine trimBy_eq_self (fun c hc => ?_) fun c hc => ?_
    · rw [List.head?_append_of_ne_nil _ hnil] at hc
      exact head_name_not_blank h c hc
    · rw [← List.cons_append, ← List.append_assoc, List.getLast?_append] at hc
      obtain rfl : ')' = c := by simpa using hc
      decide
  have hname : ∀ c ∈ f.name.toList, decide (c ≠ '(') = true := fun c hc => by
    simpa using (h.name_flat c hc).1
  have htake : f.text.toList.takeWhile (· ≠ '(') = f.name.toList := by
    rw [toList_text, List.takeWhile_append_of_pos hname]
    simp
  have hdrop : f.text.toList.dropWhile (· ≠ '(') = '(' :: (f.args.toList ++ [')']) := by
    rw [toList_text, List.dropWhile_append_of_pos hname]
    simp
  have hlast : f.text.toList.getLast? = some ')' := by
    rw [toList_text, ← List.cons_append, ← List.append_assoc, List.getLast?_append]
    rfl
  unfold read
  simp only [htrim, htake, hdrop, hlast, List.dropLast_concat, String.ofList_toList]
  rw [if_neg]
  simp [hnil]

theorem mapM_read (h : ∀ f ∈ fs, f.Sound) :
    (fs.map fun f => f.text.toList).mapM read = .ok fs := by
  induction fs with
  | nil => rfl
  | cons f fs ih =>
      rw [List.map_cons, List.mapM_cons, (h f List.mem_cons_self).read_text,
        ih fun g hg => h g (List.mem_cons_of_mem _ hg)]
      rfl

theorem dropWord_append (word cs : List Char) : dropWord word (word ++ cs) = cs := by
  unfold dropWord
  rw [if_pos (List.isPrefixOf_iff_prefix.mpr (List.prefix_append _ _)), List.drop_left]

/-- A written chain is read back. -/
theorem readChain_chain (h : ∀ f ∈ fs, f.Sound) :
    readChain (chainWord ++ chainText fs) = .ok fs := by
  unfold readChain
  simp only [String.toList_append, dropWord_append]
  by_cases hne : fs = []
  · subst hne
    rfl
  -- Empty pieces are dropped, but no written filter is one.
  · have hall : ∀ cs ∈ fs.map fun f => f.text.toList, (!cs.isEmpty) = true := by
      intro cs hcs
      obtain ⟨f, -, rfl⟩ := List.mem_map.mp hcs
      rw [toList_text]
      simp
    rw [cutAt_chainText h hne, List.filter_eq_self.mpr hall]
    exact mapM_read h

end Filter

end Retouch
