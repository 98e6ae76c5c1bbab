/-
  The library as a map.

  Every file in a library is that of a template under its key, or of a preview (`Library.Tidy`), and
  under a key stands the template that was last saved under a name with that key and not deleted
  since (`Library.Keeps`).  Each order keeps both (`Keeps.perform`), so any succession of orders
  does.  Main result: `Library.keeps_templates`.  Only a number that is too long to be read makes a
  template lost that was saved (`Library.load_wide_limit`).
-/
import Retouch.Proofs.Bytes.ReadBack
import Retouch.Proofs.Template.Name
import Retouch.Proofs.Template.Stored

namespace Retouch

open TemplateName

namespace Library

/-! ## Things by name -/

/-- The things in a library. -/
def things (l : Library) : List (String × Item) := l.items.getD []

theorem lookup_cons_of_ne {name n : String} (h : name ≠ n) (item : Item)
    (items : List (String × Item)) :
    List.lookup name ((n, item) :: items) = List.lookup name items := by
  rw [List.lookup_cons, beq_eq_false_iff_ne.mpr h]

/-- Without the thing of one name the others are found as before. -/
theorem lookup_filter_ne (name other : String) (items : List (String × Item)) :
    List.lookup name (items.filter (·.1 ≠ other)) =
      if name = other then none else List.lookup name items := by
  induction items with
  | nil => simp
  | cons e items ih =>
      obtain ⟨n, item⟩ := e
      by_cases hn : n = other
      · subst hn
        rw [List.filter_cons_of_neg (by simp), ih]
        by_cases hname : name = n
        · rw [if_pos hname, if_pos hname]
        · rw [lookup_cons_of_ne hname]
      · rw [List.filter_cons_of_pos (by simpa using hn)]
        by_cases hname : name = n
        · subst hname
          rw [List.lookup_cons_self, List.lookup_cons_self, if_neg hn]
        · rw [lookup_cons_of_ne hname, lookup_cons_of_ne hname, ih]

theorem mem_of_find? {l : Library} {name : String} {item : Item} (h : l.find? name = some item) :
    (name, item) ∈ l.things := by
  obtain ⟨front, back, heq, -⟩ := List.lookup_eq_some_iff.mp h
  rw [things, heq]
  exact List.mem_append_right _ List.mem_cons_self

theorem exists_find? {l : Library} {e : String × Item} (h : e ∈ l.things) :
    ∃ item, l.find? e.1 = some item := by
  have hsome := List.lookup_isSome_iff.mpr ⟨e, h, beq_self_eq_true e.1⟩
  exact Option.isSome_iff_exists.mp hsome

section

variable (l : Library)

theorem things_remove (name : String) :
    (l.remove name).things = l.things.filter (·.1 ≠ name) := by
  obtain ⟨_ | items⟩ := l
  · rfl
  · rfl

theorem find?_remove (name other : String) :
    (l.remove other).find? name = if name = other then none else l.find? name := by
  show List.lookup name (l.remove other).things = _
  rw [things_remove]
  exact lookup_filter_ne name other l.things

variable {l} {l' : Library} {name : String} {bytes : List UInt8}

/-- A file is written unless its name is too long or taken by a folder, and nothing else is
    changed. -/
theorem write_eq_ok (h : l.write name bytes = .ok l') :
    fits name = true ∧ l'.things = l.things.filter (·.1 ≠ name) ++ [(name, .file bytes)] := by
  unfold write at h
  split at h
  · cases h
  · simp only at h
    split at h
    · rename_i hfits
      cases h
      exact ⟨hfits, rfl⟩
    · cases h

theorem write_eq_error {cause : FileFault} (h : l.write name bytes = .error cause) :
    cause = .nameTooLong ∧ fits name = false ∨ cause = .folder ∧ l.find? name = some .folder := by
  unfold write at h
  split at h
  · rename_i hfolder
    cases h
    exact .inr ⟨rfl, hfolder⟩
  · simp only at h
    split at h
    · cases h
    · rename_i hfits
      cases h
      exact .inl ⟨rfl, Bool.eq_false_iff.mpr hfits⟩

theorem find?_write (h : l.write name bytes = .ok l') (other : String) :
    l'.find? other = if other = name then some (.file bytes) else l.find? other := by
  show List.lookup other l'.things = _
  rw [(write_eq_ok h).2, List.lookup_append, lookup_filter_ne]
  by_cases hname : other = name
  · subst hname
    rw [if_pos rfl, if_pos rfl, List.lookup_cons_self]
    rfl
  · rw [if_neg hname, if_neg hname, lookup_cons_of_ne hname, List.lookup_nil, Option.or_none]
    rfl

end

/-! ## Files of templates and previews -/

/-- Whether each thing in a library is a file that is there once, and named after a template. -/
structure Tidy (l : Library) : Prop where
  nodup : (l.things.map Prod.fst).Nodup
  named : ∀ e ∈ l.things, ∃ k ending bytes, IsKey k ∧ ending ∈ [fileEnd, previewEnd] ∧
    e = (k ++ ending, .file bytes)

namespace Tidy

variable {l l' : Library} {k ending : String} {bytes : List UInt8}

theorem create (h : l.Tidy) : l.create.Tidy := ⟨h.nodup, h.named⟩

theorem remove (h : l.Tidy) (name : String) : (l.remove name).Tidy where
  nodup := by
    rw [things_remove]
    exact h.nodup.sublist (List.filter_sublist.map Prod.fst)
  named e he := by
    rw [things_remove] at he
    exact h.named e (List.mem_of_mem_filter he)

theorem write (h : l.Tidy) (hk : IsKey k) (hending : ending ∈ [fileEnd, previewEnd])
    (hwrite : l.write (k ++ ending) bytes = .ok l') : l'.Tidy where
  nodup := by
    rw [(write_eq_ok hwrite).2, List.map_append]
    refine List.nodup_append.mpr ⟨h.nodup.sublist (List.filter_sublist.map Prod.fst), by simp, ?_⟩
    -- A file of the same name has given way to the new one.
    intro n hn m hm
    obtain ⟨e, he, rfl⟩ := List.mem_map.mp hn
    rw [List.mem_singleton.mp hm]
    simpa using (List.mem_filter.mp he).2
  named e he := by
    rw [(write_eq_ok hwrite).2] at he
    rcases List.mem_append.mp he with he | he
    · exact h.named e (List.mem_of_mem_filter he)
    · exact ⟨k, ending, bytes, hk, hending, List.mem_singleton.mp he⟩

theorem find?_ne_folder (h : l.Tidy) (name : String) : l.find? name ≠ some .folder := by
  intro hfolder
  obtain ⟨k, ending, bytes, -, -, he⟩ := h.named _ (mem_of_find? hfolder)
  cases congrArg Prod.snd he

/-- No folder is in the way of a file. -/
theorem fits_of_write_eq_error (h : l.Tidy) {name : String} {cause : FileFault}
    (hwrite : l.write name bytes = .error cause) : fits name = false :=
  ((write_eq_error hwrite).resolve_right fun hfolder => h.find?_ne_folder name hfolder.2).2

theorem hasFile_eq (h : l.Tidy) (name : String) :
    l.hasFile name = if fits name then .ok (l.find? name).isSome else .error .fileSystem := by
  unfold hasFile
  split
  · cases hfind : l.find? name with
    | none => rfl
    | some item =>
        cases item with
        | file bytes => rfl
        | folder => exact absurd hfind (h.find?_ne_folder name)
  · rfl

end Tidy

/-! ## Orders -/

/-- What is done to a library. -/
inductive Order where
  | save (t : Template) (preview : Option (List UInt8))
  | delete (name : String)

/-- A library after an order. -/
def perform (l : Library) : Order → Library
  | .save t preview => (l.save t preview).2
  | .delete name => (l.delete name).2

/-- The key of a template, empty if its name leaves nothing. -/
def keyOf (t : Template) : String := key (t.name.getD "")

/-- What is kept under a key after an order, given what was kept before. A template is saved under
    its key unless that is empty or its file has too long a name. -/
def Order.keep (k : String) (kept : Option Template) : Order → Option Template
  | .save t _ => if keyOf t = k ∧ k ≠ "" ∧ fits (k ++ fileEnd) = true then some t else kept
  | .delete name => if key name = k then none else kept

/-- A library after a succession of orders. -/
def after (l : Library) (orders : List Order) : Library := orders.foldl perform l

/-- What is kept under a key after a succession of orders. -/
def kept (orders : List Order) (k : String) : Option Template :=
  orders.foldl (Order.keep k) none

/-- Whether a library keeps templates under keys: under each key the file of the template is found,
    if there is one, and else no file. -/
structure Keeps (l : Library) (s : String → Option Template) : Prop extends Tidy l where
  find_eq : ∀ k, l.find? (k ++ fileEnd) = (s k).map fun t => .file (Bytes.ofText t.text)
  keyed : ∀ k t, s k = some t → keyOf t = k ∧ IsKey k ∧ fits (k ++ fileEnd) = true

theorem fileOf_of_key_eq {name : String} (h : key name = "") :
    fileOf name = .error (.template (.badName name)) := by
  rw [fileOf, ← key, h]
  rfl

theorem fileOf_of_key_ne {name : String} (h : key name ≠ "") :
    fileOf name = .ok (key name ++ fileEnd) := by
  rw [fileOf, ← key, if_neg (mt String.isEmpty_iff.mp h), file_eq]

section

variable {l : Library} {t : Template} {preview : Option (List UInt8)}

/-- A name that leaves nothing is refused. -/
theorem save_of_key_eq (h : keyOf t = "") : (l.save t preview).2 = l := by
  rw [save, fileOf_of_key_eq h]

theorem save_of_key_ne (h : keyOf t ≠ "") :
    (l.save t preview).2 =
      (l.create.write (keyOf t ++ fileEnd) (Bytes.ofText t.text)).toOption.elim l.create fun l =>
        preview.elim l fun bytes => (l.write (keyOf t ++ previewEnd) bytes).toOption.getD l := by
  have hfile : fileOf (t.name.getD "") = .ok (keyOf t ++ fileEnd) := fileOf_of_key_ne h
  have hpreview : TemplateName.preview (t.name.getD "") = keyOf t ++ previewEnd := rfl
  unfold save
  simp only [hfile, hpreview]
  cases l.create.write (keyOf t ++ fileEnd) (Bytes.ofText t.text) with
  | error cause => rfl
  | ok l =>
      cases preview with
      | none => rfl
      | some bytes =>
          cases hwrite : l.write (keyOf t ++ previewEnd) bytes <;> simp [hwrite, Except.toOption]

variable {name : String}

theorem delete_of_key_eq (h : key name = "") : (l.delete name).2 = l := by
  rw [delete, contains, fileOf_of_key_eq h]
  rfl

/-- What a deletion leaves: everything if no file is there, else everything but the file or but the
    file and its preview. -/
theorem delete_of_key_ne (h : key name ≠ "") :
    ((l.delete name).2 = l ∧ l.hasFile (key name ++ fileEnd) ≠ .ok true) ∨
      (l.delete name).2 = l.remove (key name ++ fileEnd) ∨
      (l.delete name).2 = (l.remove (key name ++ fileEnd)).remove (key name ++ previewEnd) := by
  have hcontains : l.contains name = l.hasFile (key name ++ fileEnd) := by
    rw [contains, fileOf_of_key_ne h]
    exact pure_bind _ l.hasFile
  unfold delete
  simp only [hcontains, file_eq, preview_eq]
  cases l.hasFile (key name ++ fileEnd) with
  | error f => exact .inl ⟨rfl, fun h => (by cases h)⟩
  | ok found =>
      cases found with
      | false => exact .inl ⟨rfl, fun h => (by cases h)⟩
      | true =>
          refine .inr ?_
          simp only
          cases (l.remove (key name ++ fileEnd)).hasFile (key name ++ previewEnd) with
          | error f => exact .inl rfl
          | ok found =>
              cases found with
              | false => exact .inl rfl
              | true => exact .inr rfl

end

namespace Keeps

variable {l l' : Library} {s : String → Option Template} {k : String} {bytes : List UInt8}

/-- An empty folder keeps nothing. -/
theorem of_things_eq_nil (h : l.things = []) : l.Keeps fun _ => none where
  nodup := by
    rw [h]
    exact List.nodup_nil
  named e he := by
    rw [h] at he
    exact absurd he List.not_mem_nil
  find_eq k := by
    show List.lookup _ l.things = none
    rw [h]
    rfl
  keyed k t ht := by cases ht

theorem create (h : l.Keeps s) : l.create.Keeps s := ⟨h.toTidy.create, h.find_eq, h.keyed⟩

theorem write_preview (h : l.Keeps s) (hk : IsKey k)
    (hwrite : l.write (k ++ previewEnd) bytes = .ok l') : l'.Keeps s where
  toTidy := h.toTidy.write hk (by simp) hwrite
  find_eq k' := by rw [find?_write hwrite, if_neg (file_ne_preview k' k), h.find_eq]
  keyed := h.keyed

theorem remove_preview (h : l.Keeps s) (k : String) : (l.remove (k ++ previewEnd)).Keeps s where
  toTidy := h.toTidy.remove _
  find_eq k' := by rw [find?_remove, if_neg (file_ne_preview k' k), h.find_eq]
  keyed := h.keyed

theorem write_file {t : Template} (h : l.Keeps s) (hk : IsKey (keyOf t))
    (hwrite : l.write (keyOf t ++ fileEnd) (Bytes.ofText t.text) = .ok l') :
    l'.Keeps (Function.update s (keyOf t) (some t)) where
  toTidy := h.toTidy.write hk (by simp) hwrite
  find_eq k' := by
    rw [find?_write hwrite, Function.update_apply, h.find_eq, apply_ite (Option.map _)]
    simp only [file_inj]
    rfl
  keyed k' t' ht' := by
    rw [Function.update_apply] at ht'
    split at ht'
    · rename_i hkey
      cases ht'
      rw [hkey]
      exact ⟨rfl, hk, (write_eq_ok hwrite).1⟩
    · exact h.keyed k' t' ht'

theorem remove_file (h : l.Keeps s) (k : String) :
    (l.remove (k ++ fileEnd)).Keeps (Function.update s k none) where
  toTidy := h.toTidy.remove _
  find_eq k' := by
    rw [find?_remove, Function.update_apply, h.find_eq, apply_ite (Option.map _)]
    simp only [file_inj]
    rfl
  keyed k' t' ht' := by
    rw [Function.update_apply] at ht'
    split at ht'
    · cases ht'
    · exact h.keyed k' t' ht'

/-- What a library keeps is there exactly if a file is found. -/
theorem isSome_find (h : l.Keeps s) (k : String) :
    (l.find? (k ++ fileEnd)).isSome = (s k).isSome := by
  rw [h.find_eq, Option.isSome_map]

theorem congr {s' : String → Option Template} (h : l.Keeps s) (hs : ∀ k, s k = s' k) :
    l.Keeps s' := funext hs ▸ h

theorem save (h : l.Keeps s) (t : Template) (preview : Option (List UInt8)) :
    (l.save t preview).2.Keeps fun k => (Order.save t preview).keep k (s k) := by
  by_cases hkey : keyOf t = ""
  · -- The template is refused, and under no key either.
    rw [save_of_key_eq hkey]
    refine h.congr fun k => ?_
    rw [Order.keep, if_neg]
    rintro ⟨rfl, hne, -⟩
    exact hne hkey
  have hk : IsKey (keyOf t) := isKey_key hkey
  rw [save_of_key_ne hkey]
  cases hwrite : l.create.write (keyOf t ++ fileEnd) (Bytes.ofText t.text) with
  | error cause =>
      -- Only the length of its name keeps a file from being written.
      have hlong := h.toTidy.create.fits_of_write_eq_error hwrite
      refine h.create.congr fun k => ?_
      rw [Order.keep, if_neg]
      rintro ⟨rfl, -, hfits⟩
      exact absurd (hlong.symm.trans hfits) (by decide)
  | ok l₁ =>
      have hkeep : ∀ k, Function.update s (keyOf t) (some t) k =
          (Order.save t preview).keep k (s k) := by
        intro k
        rw [Function.update_apply, Order.keep]
        by_cases hk' : k = keyOf t
        · subst hk'
          rw [if_pos rfl, if_pos ⟨rfl, hk.ne_empty, (write_eq_ok hwrite).1⟩]
        · rw [if_neg hk', if_neg fun hall => hk' hall.1.symm]
      have hfile := (h.create.write_file hk hwrite).congr hkeep
      cases preview with
      | none => exact hfile
      | some bytes =>
          -- The template stays even if its preview is not written.
          show ((l₁.write (keyOf t ++ previewEnd) bytes).toOption.getD l₁).Keeps _
          cases hpreview : l₁.write (keyOf t ++ previewEnd) bytes with
          | error cause => exact hfile
          | ok l₂ => exact hfile.write_preview hk hpreview

theorem delete (h : l.Keeps s) (name : String) :
    (l.delete name).2.Keeps fun k => (Order.delete name).keep k (s k) := by
  have hkeep : ∀ k, Function.update s (key name) none k = (Order.delete name).keep k (s k) := by
    intro k
    rw [Function.update_apply, Order.keep]
    exact if_congr eq_comm rfl rfl
  -- What is not found was not kept, so that nothing changes.
  have hnone : s (key name) = none → l.Keeps fun k => (Order.delete name).keep k (s k) := by
    intro hs
    refine h.congr fun k => ?_
    rw [← hkeep, ← hs, Function.update_eq_self]
  by_cases hkey : key name = ""
  · rw [delete_of_key_eq hkey]
    refine hnone (Option.eq_none_iff_forall_ne_some.mpr fun t ht => ?_)
    exact (h.keyed _ t ht).2.1.ne_empty hkey
  have hremove := (h.remove_file (key name)).congr hkeep
  rcases delete_of_key_ne hkey with ⟨heq, hfile⟩ | heq | heq
  · rw [heq]
    refine hnone (Option.eq_none_iff_forall_ne_some.mpr fun t ht => hfile ?_)
    rw [h.toTidy.hasFile_eq, if_pos (h.keyed _ t ht).2.2, h.isSome_find, ht]
    rfl
  · rw [heq]
    exact hremove
  · rw [heq]
    exact hremove.remove_preview (key name)

/-- Every order keeps a library a library of templates. -/
theorem perform (h : l.Keeps s) (o : Order) : (l.perform o).Keeps fun k => o.keep k (s k) := by
  cases o with
  | save t preview => exact h.save t preview
  | delete name => exact h.delete name

/-- So does any succession of orders. -/
theorem run (h : l.Keeps s) (orders : List Order) :
    (l.after orders).Keeps fun k => orders.foldl (Order.keep k) (s k) := by
  -- The map moves along with the library, so both are general in the induction.
  induction orders generalizing l s with
  | nil => exact h
  | cons o orders ih => exact ih (h.perform o)

end Keeps

/-! ## Listing -/

/-- The template that a file is for, if it is for one. -/
def keyOfFile? (name : String) : Option String :=
  if fileEnd.toList.isSuffixOf name.toList then
    some (String.ofList (name.toList.take (name.length - fileEnd.length)))
  else none

theorem keyOfFile?_eq_some {name k : String} : keyOfFile? name = some k ↔ name = k ++ fileEnd := by
  rw [keyOfFile?, Option.ite_none_right_eq_some]
  constructor
  · rintro ⟨hend, hk⟩
    obtain ⟨k', rfl⟩ := exists_file hend
    rw [take_file] at hk
    rw [Option.some.inj hk]
  · rintro rfl
    exact ⟨isSuffixOf_file k, congrArg some (take_file k)⟩

namespace Tidy

variable {l : Library}

/-- Where every thing is a file, the list has the names of those that are for templates. -/
theorem list_eq (h : l.Tidy) :
    l.list = ((l.things.map Prod.fst).filterMap keyOfFile?).mergeSort fun a b => a ≤ b := by
  rw [list, List.filterMap_map]
  refine congrArg (List.mergeSort · _) (List.filterMap_congr fun e he => ?_)
  obtain ⟨k, ending, bytes, -, -, rfl⟩ := h.named e he
  rfl

theorem mem_list (h : l.Tidy) {k : String} :
    k ∈ l.list ↔ (l.find? (k ++ fileEnd)).isSome := by
  rw [h.list_eq, List.mem_mergeSort, List.mem_filterMap]
  constructor
  · rintro ⟨name, hname, hk⟩
    obtain ⟨e, he, rfl⟩ := List.mem_map.mp hname
    obtain ⟨item, hitem⟩ := exists_find? he
    rw [← keyOfFile?_eq_some.mp hk, hitem]
    rfl
  · intro hsome
    obtain ⟨item, hitem⟩ := Option.isSome_iff_exists.mp hsome
    exact ⟨k ++ fileEnd, List.mem_map.mpr ⟨_, mem_of_find? hitem, rfl⟩, keyOfFile?_eq_some.mpr rfl⟩

/-- The list is in ascending order, without repetition. -/
theorem sorted_list (h : l.Tidy) : l.list.Pairwise (· < ·) := by
  rw [h.list_eq]
  have hnodup : ((l.things.map Prod.fst).filterMap keyOfFile?).Nodup :=
    h.nodup.filterMap fun name name' k hk hk' => by
      rw [keyOfFile?_eq_some.mp hk, keyOfFile?_eq_some.mp hk']
  have hsorted : (List.mergeSort ((l.things.map Prod.fst).filterMap keyOfFile?)
      fun a b => a ≤ b).Pairwise (· ≤ ·) := List.pairwise_mergeSort' (· ≤ ·) _
  -- No two files are for one key, so neighbours in the sorted list differ.
  have hdistinct := (List.mergeSort_perm _ fun a b => a ≤ b).nodup_iff.mpr hnodup
  exact hsorted.imp₂ (fun a b hle hne => lt_of_le_of_ne hle hne) hdistinct

end Tidy

/-! ## Loading -/

namespace Keeps

variable {l : Library} {s : String → Option Template} {name : String}

theorem mem_list (h : l.Keeps s) {k : String} : k ∈ l.list ↔ (s k).isSome := by
  rw [h.toTidy.mem_list, h.isSome_find]

/-- What is kept under a key is read from its file. -/
theorem load_eq_parse {t : Template} (h : l.Keeps s) (ht : s (key name) = some t) (issued : ℕ) :
    l.load name issued = Template.parse t.text (path (key name ++ fileEnd)) issued := by
  have hfile := fileOf_of_key_ne (h.keyed _ _ ht).2.1.ne_empty
  have htext : l.text name = .ok t.text := by
    rw [text, hfile]
    simp only [h.find_eq, ht, Option.map_some, Bytes.text?_ofText]
    rw [unifyLineEnds_eq_self t.feedsOnly_text, String.ofList_toList]
  rw [load, htext, hfile]

theorem load_eq (h : l.Keeps s) {t : Template} (ht : s (key name) = some t) (hstorable : t.Storable)
    (issued : ℕ) : l.load name issued = (.ok t.normal, issued) := by
  rw [h.load_eq_parse ht]
  refine Template.parse_text hstorable (fun hempty => ?_) _ issued
  -- A template without a name has no key.
  obtain ⟨hkey, hk, -⟩ := h.keyed _ _ ht
  rw [keyOf, hempty] at hkey
  exact hk.ne_empty (hkey ▸ (by decide : key "" = ""))

/-- Nothing is found under a key that nothing is kept under. -/
theorem load_eq_error (h : l.Keeps s) (hkey : key name ≠ "") (hnone : s (key name) = none)
    (issued : ℕ) : l.load name issued = (.error (.template (.notFound name)), issued) := by
  have hfile := fileOf_of_key_ne hkey
  have htext : l.text name = .error (.template (.notFound name)) := by
    rw [text, hfile]
    simp only [h.find_eq, hnone, Option.map_none]
  rw [load, htext]

end Keeps

/-! ## What a library keeps -/

/-- What is kept has been saved. -/
theorem mem_of_kept {orders : List Order} {k : String} {t : Template}
    (h : kept orders k = some t) : ∃ preview, .save t preview ∈ orders := by
  -- By the last order: what is kept after it was kept before, or is what it saves.
  induction orders using List.reverseRecOn with
  | nil => cases h
  | append_singleton orders o ih =>
      rw [kept, List.foldl_concat, ← kept] at h
      have hearlier : kept orders k = some t → ∃ preview, .save t preview ∈ orders ++ [o] := by
        intro ht
        obtain ⟨preview, hmem⟩ := ih ht
        exact ⟨preview, List.mem_append_left _ hmem⟩
      cases o with
      | save t' preview =>
          rw [Order.keep] at h
          split at h
          · cases h
            exact ⟨preview, List.mem_append_right _ List.mem_cons_self⟩
          · exact hearlier h
      | delete name =>
          rw [Order.keep] at h
          split at h
          · cases h
          · exact hearlier h

/-- Whatever is saved in a library and deleted from it, all that it writes are files whose names
    lead nowhere else, it lists in ascending order the keys that templates are kept under, and under
    each name it loads the template that is kept under the key of the name, or finds none. -/
theorem keeps_templates {l : Library} (hempty : l.things = []) {orders : List Order}
    (hsaved : ∀ t preview, .save t preview ∈ orders → t.Storable) (issued : ℕ) :
    (∀ e ∈ (l.after orders).things, (∃ bytes, e.2 = .file bytes) ∧
      (∃ name, e.1 = file name ∨ e.1 = TemplateName.preview name) ∧
      ∀ c ∈ e.1.toList, isForbidden c = false) ∧
    (l.after orders).list.Pairwise (· < ·) ∧
    (∀ k, k ∈ (l.after orders).list ↔ (kept orders k).isSome) ∧
    (∀ k ∈ (l.after orders).list, ∃ t, (l.after orders).load k issued = (.ok t, issued)) ∧
    ∀ name, key name ≠ "" →
      (∀ t, kept orders (key name) = some t →
        (l.after orders).load name issued = (.ok t.normal, issued) ∧ t.normal.write = t.write ∧
          (t.transformations.Valid → t.normal = t)) ∧
      (kept orders (key name) = none →
        (l.after orders).load name issued = (.error (.template (.notFound name)), issued)) := by
  have h : (l.after orders).Keeps (kept orders) := (Keeps.of_things_eq_nil hempty).run orders
  -- Listed or asked for, a template is loaded by what is kept under the key.
  have hload : ∀ name t, kept orders (key name) = some t →
      (l.after orders).load name issued = (.ok t.normal, issued) := by
    intro name t ht
    obtain ⟨preview, hmem⟩ := mem_of_kept ht
    exact h.load_eq ht (hsaved t preview hmem) issued
  refine ⟨fun e he => ?_, h.toTidy.sorted_list, fun k => h.mem_list, fun k hk => ?_,
    fun name hname => ⟨fun t ht => ⟨hload name t ht, t.write_normal, Template.normal_eq⟩,
      fun hnone => h.load_eq_error hname hnone issued⟩⟩
  · obtain ⟨k, ending, bytes, hk, hending, rfl⟩ := h.named e he
    refine ⟨⟨bytes, rfl⟩, ⟨k, ?_⟩, fun c hc => allowed_of_mem_file hk hending hc⟩
    rw [file_eq, preview_eq, hk.key_eq]
    simp only [List.mem_cons, List.not_mem_nil, or_false] at hending
    exact hending.imp (congrArg (k ++ ·)) (congrArg (k ++ ·))
  · obtain ⟨t, ht⟩ := Option.isSome_iff_exists.mp (h.mem_list.mp hk)
    have hkey := (h.keyed k t ht).2.1.key_eq
    exact ⟨t.normal, hload k t (hkey.symm ▸ ht)⟩

/-- A template that blurs. -/
def blurred (name : String) : Template :=
  { version := Template.currentVersion, name := some name, description := none, mode := .adaptive
    size := none, transformations := ⟨{ blur := some 2.5 }, none⟩
    createdAt := Template.fixedDate }

/-- Two templates are saved, and one of them is deleted. -/
def blurring : List Order :=
  [.save (blurred " sun/set") none, .save (blurred "dawn") (some [82, 73]), .delete "dawn "]

/-- A template is found under another spelling of its name, and what was deleted is not found. -/
theorem keeps_templates_blurring :
    (∀ t preview, .save t preview ∈ blurring → t.Storable) ∧
      "sunset" ∈ (after {} blurring).list ∧
      (after {} blurring).load "sunset?" 0 = (.ok (blurred " sun/set"), 0) ∧
      (after {} blurring).load "dawn" 0 = (.error (.template (.notFound "dawn")), 0) := by
  have hstorable : ∀ name, (blurred name).Storable := by
    intro name
    have hblur : (blurred "").transformations.Short :=
      State.short_of_write (by decide +kernel) (by decide +kernel)
    have hversion : Template.currentVersion ≠ "" := by decide
    refine ⟨hversion, ⟨fun _ h => (by cases h), fun h => (by cases h)⟩, fun f x hx => ?_, hblur,
      fun _ h => (by cases h)⟩
    cases f <;> cases hx
    decide +kernel
  have hsaved : ∀ t preview, .save t preview ∈ blurring → t.Storable := by
    intro t preview hmem
    simp only [blurring, List.mem_cons, List.not_mem_nil, or_false, Order.save.injEq,
      reduceCtorEq] at hmem
    rcases hmem with ⟨rfl, -⟩ | ⟨rfl, -⟩
    · exact hstorable _
    · exact hstorable _
  obtain ⟨-, -, hlist, -, hload⟩ := keeps_templates (l := {}) rfl hsaved 0
  obtain ⟨hset, hsunset, hdawn, hspace⟩ : key " sun/set" = "sunset" ∧ key "sunset?" = "sunset" ∧
      key "dawn" = "dawn" ∧ key "dawn " = "dawn" := by decide
  have hkept : kept blurring (key "sunset?") = some (blurred " sun/set") := by
    have hfits : fits ("sunset" ++ fileEnd) = true := by decide
    simp [kept, blurring, Order.keep, keyOf, blurred, hset, hsunset, hdawn, hspace, hfits]
  have hgone : kept blurring (key "dawn") = none := by
    simp [kept, blurring, Order.keep, keyOf, blurred, hset, hdawn, hspace]
  obtain ⟨hfound, -, hnormal⟩ := (hload "sunset?" (by decide)).1 _ hkept
  refine ⟨hsaved, (hlist "sunset").mpr (by rw [← hsunset, hkept]; rfl), ?_,
    (hload "dawn" (by decide)).2 hgone⟩
  rw [hfound, hnormal ⟨fun _ h => (by cases h), fun h => (by cases h)⟩]

/-! ## Numbers with too many digits -/

/-- A template with a number that is too long to be read. -/
def overwide : Template :=
  .ofState (Template.wide (10 ^ Number.digitLimit)) (some "Wide") .adaptive none none {}

/-- Such a template is saved and listed, but it cannot be loaded. -/
theorem load_wide_limit :
    overwide.version ≠ "" ∧ overwide.transformations.Admissible ∧ overwide.transformations.Finite ∧
      (save {} overwide none).1 = .ok "Wide.imagor.json" ∧
      "Wide" ∈ (after {} [.save overwide none]).list ∧
      (after {} [.save overwide none]).load "Wide" 0 =
        (.error (.template (.unreadable "<dir>/Wide.imagor.json" (.tooManyDigits 4301))), 0) := by
  have h : (after {} [.save overwide none]).Keeps (kept [.save overwide none]) :=
    (Keeps.of_things_eq_nil rfl).run _
  have hkey : key "Wide" = "Wide" := by decide
  have hkept : kept [.save overwide none] "Wide" = some overwide := by
    rw [kept, List.foldl_cons, List.foldl_nil, Order.keep, if_pos ⟨hkey, by decide, by decide⟩]
  have hwide : Value.parse overwide.text = .error (.tooManyDigits (Number.digitLimit + 1)) := by
    rw [← Template.length_natText_limit]
    exact Template.parse_wide Template.digitLimit_lt_length {}
  refine ⟨by decide, ⟨fun _ h => (by cases h), fun h => (by cases h)⟩, fun f x hx => ?_, ?_,
    h.mem_list.mpr (by rw [hkept]; rfl), ?_⟩
  · cases f <;> cases hx
  · have hname : overwide.name = some "Wide" := rfl
    unfold save
    rw [hname]
    generalize Bytes.ofText overwide.text = bytes
    rfl
  · have hparse := h.load_eq_parse (hkey.symm ▸ hkept) 0
    rw [hparse, Template.parse_of_eq_error hwide, hkey]
    rfl

end Library

end Retouch
