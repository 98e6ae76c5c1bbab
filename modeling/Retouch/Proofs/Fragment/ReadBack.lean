/-
  Fragments read back.

  A fragment writes the fields of a state that differ from their defaults, and reading it gives
  exactly those fields back (`decode_encode`): the other ones are unset in what is read.
-/
import Retouch.Fragment
import Retouch.Proofs.Bytes.ReadBack
import Retouch.Proofs.State.ReadBack

namespace Retouch

/-! ## Values that are left out -/

/-- The settings whose values are not written in a fragment are unset. -/
def Params.significant (p : Params) : Params :=
  { p with
    fitIn := p.fitIn.filter (· ≠ true)
    stretch := p.stretch.filter (· ≠ false)
    smart := p.smart.filter (· ≠ false)
    brightness := p.brightness.filter (! · == 0.0)
    contrast := p.contrast.filter (! · == 0.0)
    saturation := p.saturation.filter (! · == 0.0)
    hue := p.hue.filter (! · == 0.0)
    blur := p.blur.filter (! · == 0.0)
    sharpen := p.sharpen.filter (! · == 0.0)
    grayscale := p.grayscale.filter (· ≠ false)
    hFlip := p.hFlip.filter (· ≠ false)
    vFlip := p.vFlip.filter (· ≠ false)
    rotation := p.rotation.filter (· ≠ 0) }

/-- The state without the settings that a fragment leaves out. Layers are written in full. -/
def State.significant (s : State) : State := { s with params := s.params.significant }

namespace Fragment

/-- The written value of a field, if a fragment holds it. -/
def get (s : State) (f : Field) : Option Value :=
  (s.get f).filter fun v => !isDefault f.key v

theorem significant_eq (s : State) :
    significant s = Field.all.filterMap fun f => (get s f).map (f.key, ·) := by
  rw [significant, State.entries, List.filter_filterMap]
  simp only [Option.filter_map]
  rfl

theorem filter_map {α : Type} {o : Option α} {w : α → Value} {q : α → Bool}
    {p : Value → Bool} (h : ∀ a, p (w a) = q a) : (o.map w).filter p = (o.filter q).map w := by
  rw [Option.filter_map, show p ∘ w = q from funext h]

theorem filter_map_eq_self {α : Type} {o : Option α} {w : α → Value} {p : Value → Bool}
    (h : ∀ a, p (w a) = true) : (o.map w).filter p = o.map w := by
  cases o with
  | none => rfl
  | some a => exact if_pos (h a)

/-- What a fragment holds of the settings is what the significant settings are written as. -/
theorem get_eq_significant (s : State) {f : Field} (hf : f ≠ .layers) :
    get s f = s.params.significant.get f := by
  cases f with
  | layers => exact absurd rfl hf
  | fitIn => exact filter_map fun b => by cases b <;> rfl
  | stretch | smart | grayscale | hFlip | vFlip => exact filter_map fun b => by cases b <;> rfl
  | brightness | contrast | saturation | hue | blur | sharpen => exact filter_map fun _ => rfl
  | rotation => exact filter_map fun _ => by simp [isDefault, default?, isSame, Field.key]
  | _ => exact filter_map_eq_self fun _ => rfl

theorem get_layers (s : State) :
    get s .layers = s.layers.map fun ls => .list (writeLayers ls) :=
  filter_map_eq_self fun _ => rfl

/-! ## Texts -/

/-- The entries that a text writes are read back from its fragment. -/
theorem payload?_ofPayload {payload : String} {es : Entries} (hne : payload ≠ "")
    (h : Value.parse payload = .ok (.object es)) : payload? (ofPayload payload) = some es := by
  obtain ⟨cs, hcs⟩ : ∃ cs, Bytes.dropPadding (Bytes.encode .address (Bytes.ofText payload)) = cs :=
    ⟨_, rfl⟩
  have hplain : ∀ c ∈ cs, c.toNat < 128 ∧ Text.isBlank c = false ∧ c ≠ '#' := fun c hc =>
    Bytes.plain_of_mem_dropPadding (hcs ▸ hc)
  have hbytes : Bytes.ofText payload ≠ [] := by
    intro hnil
    have hread := Bytes.text?_ofText payload
    rw [hnil] at hread
    exact hne (Option.some.inj hread).symm
  have hempty : cs.isEmpty = false :=
    List.isEmpty_eq_false_iff.mpr (hcs ▸ Bytes.dropPadding_encode_ne_nil hbytes)
  have htrim : Text.trimBy Text.isBlank cs = cs :=
    Text.trimBy_eq_self (fun c hc => (hplain c (List.mem_of_mem_head? hc)).2.1)
      fun c hc => (hplain c (List.mem_of_mem_getLast? hc)).2.1
  have hmark : cs.dropWhile (· = '#') = cs :=
    Text.dropWhile_eq_self_of_head fun c hc =>
      decide_eq_false (hplain c (List.mem_of_mem_head? hc)).2.2
  have hascii : Bytes.isAscii cs = true :=
    List.all_eq_true.mpr fun c hc => decide_eq_true (hplain c hc).1
  have hdecode : Bytes.decode? (Bytes.padToGroups cs) = some (Bytes.ofText payload) :=
    hcs ▸ Bytes.decode?_dropPadding .address (Bytes.ofText payload)
  unfold payload? ofPayload
  simp only [String.toList_ofList, hcs, htrim, hempty, hmark, hascii, hdecode, Option.bind_eq_bind,
    Option.bind_some, Bytes.text?_ofText, h]
  rfl

/-! ## States -/

variable {s : State}

theorem valid_significant (h : s.Valid) : s.significant.params.Valid false where
  rotation n hn := h.params.rotation n (Option.mem_filter_iff.mp hn).1
  image h := by cases h

/-- The entries of a fragment are those of the significant settings and the layers. -/
theorem check_significant (hvalid : s.Valid) (hshort : s.Short) :
    State.check false (.object (significant s)) = pure s.significant := by
  rw [significant_eq]
  exact State.check_filterMap (fun _ => .inl rfl) (valid_significant hvalid)
    (fun f hf => get_eq_significant s hf) (get_layers s)
    fun ls hls => checkItems_write (fun _ => LayerProps.Short.printable) ls 0
      (hvalid.layers hls) (hshort.layers hls)

theorem proper_significant (hvalid : s.Valid) (hshort : s.Short) :
    (Value.object (significant s)).Proper := by
  have hwrite := State.proper_write s false hvalid hshort
  rw [State.write_eq] at hwrite
  refine ⟨hwrite.1.sublist (List.filter_sublist.map _), Value.properEntries_iff.mpr fun e he => ?_⟩
  exact Value.properEntries_iff.mp hwrite.2 e (List.mem_of_mem_filter he)

theorem migrate_significant (s : State) :
    Entries.migrate (significant s) = .ok (significant s) := by
  rw [significant_eq]
  exact Entries.migrate_filterMap _

theorem ofEntries_significant (hvalid : s.Valid) (hshort : s.Short) (issued : ℕ) :
    (State.ofEntries (significant s)).run issued = (.ok s.significant, issued) := by
  rw [State.ofEntries, migrate_significant]
  show (State.check false (.object (significant s))).run issued = _
  rw [check_significant hvalid hshort]
  rfl

theorem encode_eq_ofPayload (h : significant s ≠ []) :
    encode s = ofPayload (Value.compact .interchange (.object (significant s))) := by
  have hes : (significant s).isEmpty = false := List.isEmpty_eq_false_iff.mpr h
  unfold encode
  simp only [hes]
  rfl

theorem payload?_encode (hvalid : s.Valid) (hshort : s.Short) (h : significant s ≠ []) :
    payload? (encode s) = some (significant s) := by
  have hread := Value.parse_compact (proper_significant hvalid hshort)
  have htext : Value.compact .interchange (.object (significant s)) ≠ "" := by
    intro hempty
    rw [hempty] at hread
    cases hread
  rw [encode_eq_ofPayload h]
  exact payload?_ofPayload htext hread

/-- The fragment of a state is empty only if there is nothing to write. -/
theorem encode_eq_empty_iff (hvalid : s.Valid) (hshort : s.Short) :
    encode s = "" ↔ significant s = [] := by
  constructor
  · intro h
    by_contra hne
    have hread := payload?_encode hvalid hshort hne
    rw [h] at hread
    cases hread
  · intro h
    unfold encode
    simp only [h]
    rfl

/-- The significant part of a state is read back from its fragment. -/
theorem decode_encode (hvalid : s.Valid) (hshort : s.Short) (issued : ℕ) (h : encode s ≠ "") :
    decode (encode s) issued = (.ok (some s.significant), issued) := by
  have hread := payload?_encode hvalid hshort
    fun hnil => h ((encode_eq_empty_iff hvalid hshort).mpr hnil)
  unfold decode
  simp only [hread, ofEntries_significant hvalid hshort]

/-- A state whose fragment is empty has no significant part. -/
theorem significant_eq_empty (hvalid : s.Valid) (hshort : s.Short) (h : encode s = "") :
    s.significant = .empty := by
  have hread := ofEntries_significant hvalid hshort 0
  rw [(encode_eq_empty_iff hvalid hshort).mp h] at hread
  have hempty : (State.ofEntries []).run 0 = (.ok State.empty, 0) := by
    have hvalid : Params.Valid false {} := ⟨fun _ h => (by cases h), fun h => (by cases h)⟩
    have hcheck : State.check false (.object []) = pure .empty :=
      State.check_write (fun _ => LayerProps.Short.printable) .empty false hvalid
        (R := fun _ _ => True) trivial
    show (State.check false (.object [])).run 0 = _
    rw [hcheck]
    rfl
  rw [hempty] at hread
  exact (Except.ok.inj (Prod.mk.inj hread).1).symm

end Fragment

end Retouch
