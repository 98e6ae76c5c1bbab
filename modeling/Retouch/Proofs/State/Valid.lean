/-
  What is read is in the form that reading gives.

  A state that a check accepts is valid all over its tree (`State.valid_of_run`), so whatever comes
  out of a document can be written and read back.  Each conversion accepts only what it should;
  the tree follows by recursion on the value.
-/
import Retouch.Proofs.State.ReadBack

namespace Retouch

open Check (Accepts)

/-! ## Conversions -/

section

variable (v : Value)

theorem Convert.accepts_text : (Convert.text v).Accepts fun _ => True := by
  unfold Convert.text
  split
  · exact .pure trivial
  · exact .note
  · exact .note

theorem Convert.accepts_int : (Convert.int v).Accepts fun _ => True := by
  unfold Convert.int
  split
  · exact .pure trivial
  · exact .pure trivial
  · split
    · exact .pure trivial
    · exact .note
  · split
    · exact .note
    · split
      · exact .pure trivial
      · exact .note
  · exact .note
  · exact .note

theorem Convert.accepts_double : (Convert.double v).Accepts fun _ => True := by
  unfold Convert.double
  split
  · exact .pure trivial
  · split
    · exact .pure trivial
    · exact .note
  · exact .pure trivial
  · split
    · exact .pure trivial
    · exact .note
  · exact .note
  · exact .note

theorem Convert.accepts_truth : (Convert.truth v).Accepts fun _ => True := by
  have hwhole : ∀ n, (Convert.truth.ofWhole n).Accepts fun _ => True := by
    intro n
    unfold Convert.truth.ofWhole
    split
    · exact .pure trivial
    · split
      · exact .pure trivial
      · exact .note
  unfold Convert.truth
  split
  · exact .pure trivial
  · exact hwhole _
  · split
    · exact hwhole _
    · exact .note
  · split
    · exact .pure trivial
    · exact .note
  · exact .note
  · exact .note

theorem Convert.accepts_intBetween (low high : Int) :
    (Convert.intBetween low high v).Accepts fun n => low ≤ n ∧ n ≤ high := by
  refine (Convert.accepts_int v).bind_any fun n => ?_
  split
  · exact .note
  · split
    · exact .note
    · exact .pure (by omega)

theorem normalTurn?_normalTurn? {m n : Int} (h : normalTurn? m = some n) :
    normalTurn? n = some n := by
  unfold normalTurn? at h ⊢
  split at h
  · have hn : m % 360 = n := Option.some.inj h
    rw [if_pos (by omega), show n % 360 = n by omega]
  · cases h

/-- A rotation is folded into one turn. -/
theorem Convert.accepts_rotation :
    (Convert.rotation v).Accepts fun n => normalTurn? n = some n := by
  have hfold : ∀ o, (Convert.rotation.fold o).Accepts fun n => normalTurn? n = some n := by
    intro o
    unfold Convert.rotation.fold
    split
    · rename_i n hn
      obtain ⟨m, -, hm⟩ := Option.bind_eq_some_iff.mp hn
      exact .pure (normalTurn?_normalTurn? hm)
    · exact .note
  unfold Convert.rotation
  split
  · exact hfold _
  · exact hfold _
  · split
    · exact hfold _
    · exact .note
    · exact .throw
  · exact hfold _
  · exact .note
  · exact .throw

theorem Blend.accepts_read : (Blend.read v).Accepts fun _ => True := by
  unfold Blend.read
  split
  · split
    · exact .pure trivial
    · exact .note
  · exact .note

end

/-! ## Fields -/

section

variable {α : Type} {P : α → Prop} {es : Entries} {c : Value → Check α}

theorem accepts_optionalField {f : Field} (hc : ∀ v, (c v).Accepts P) :
    (optionalField es f c).Accepts fun o => ∀ a ∈ o, P a := by
  unfold optionalField
  split
  · exact .pure fun _ h => by cases h
  · exact .pure fun _ h => by cases h
  · refine Accepts.within ((hc _).map fun a ha b hb => ?_) _
    cases hb
    exact ha

theorem accepts_required [Inhabited α] {key : String} (hc : ∀ v, (c v).Accepts P) :
    (Convert.required es key c).Accepts P := by
  unfold Convert.required
  split
  · exact (hc _).within _
  · exact Accepts.note.within _

theorem accepts_requiredField [Inhabited α] {first second : String}
    (hc : ∀ v, (c v).Accepts P) : (requiredField es first second c).Accepts P := by
  unfold requiredField
  split
  · exact (hc _).within _
  · exact Accepts.note.within _

theorem accepts_fieldOr {first second : String} {default : α} (hdefault : P default)
    (hc : ∀ v, (c v).Accepts P) : (fieldOr es first second default c).Accepts P := by
  unfold fieldOr
  split
  · exact (hc _).within _
  · exact .pure hdefault

end

theorem Size.accepts_read (v : Value) : (Size.read v).Accepts fun _ => True := by
  unfold Size.read
  split
  · refine (accepts_required Convert.accepts_int).bind_any fun _ => ?_
    refine (accepts_required Convert.accepts_int).bind_any fun _ => ?_
    exact .pure trivial
  · exact .note

/-! ## Settings and layers -/

theorem Position.valid_of_read {v : Value} {p : Position} (h : Position.read v = .ok p) :
    p.Valid := by
  have halign : ∀ {edge offset}, align? edge offset = .ok p → p.Valid := by
    intro edge offset h
    unfold align? at h
    split at h
    · split at h
      · cases h
      · cases h
        trivial
    · split at h
      · split at h
        · cases h
          trivial
        · cases h
      · cases h
  unfold Position.read at h
  split at h
  · cases h
    rfl
  · cases h
    exact Number.normalize_normalize _
  · unfold ofText at h
    simp only at h
    split at h
    · cases h
      exact Number.normalize_normalize _
    · split at h
      · cases h
      · split at h
        · cases h
        · exact halign h
  · cases h

theorem Position.accepts_check (v : Value) : (Position.check v).Accepts Position.Valid := by
  unfold Position.check
  split
  · rename_i p hp
    exact .pure (Position.valid_of_read hp)
  · exact .note

theorem LayerProps.accepts_read (es : Entries) : (LayerProps.read es).Accepts LayerProps.Valid := by
  unfold LayerProps.read
  extract_lets rest
  have hrest : ∀ id, (rest id).Accepts LayerProps.Valid := by
    intro id
    refine (accepts_requiredField Convert.accepts_text).bind_any fun _ => ?_
    refine (accepts_requiredField Size.accepts_read).bind_any fun _ => ?_
    refine (accepts_fieldOr trivial Position.accepts_check).bind fun x => ?_
    refine (accepts_fieldOr trivial Position.accepts_check).bind fun y => ?_
    refine (accepts_fieldOr (by decide) fun v =>
      Convert.accepts_intBetween v 0 100).bind fun _ => ?_
    refine (accepts_fieldOr trivial Blend.accepts_read).bind_any fun _ => ?_
    refine (accepts_fieldOr trivial Convert.accepts_truth).bind_any fun _ => ?_
    refine (accepts_fieldOr trivial Convert.accepts_text).bind_any fun _ => ?_
    exact .pure fun halpha hy hx => ⟨hx, hy, halpha⟩
  split
  · exact ((Convert.accepts_text _).within _).bind_any hrest
  · exact (Accepts.freshId fun _ => trivial).bind_any hrest

/-- Settings that are accepted are in the form that reading gives. -/
theorem Params.accepts_read (inLayer : Bool) (es : Entries) :
    (Params.read inLayer es).Accepts (Params.Valid inLayer) := by
  have hany : ∀ {α : Type} {c : Value → Check α} {f : Field},
      (∀ v, (c v).Accepts fun _ => True) → (optionalField es f c).Accepts fun _ => True :=
    fun hc => (accepts_optionalField hc).mono fun _ _ => trivial
  have hrotation : (optionalField es .rotation Convert.rotation).Accepts
      fun o => ∀ n ∈ o, normalTurn? n = some n := accepts_optionalField Convert.accepts_rotation
  unfold Params.read
  cases inLayer <;> simp only [pure_bind, if_true, Bool.false_eq_true, if_false]
  -- Only the rotation matters; what is read before and after it is arbitrary.  Conversions are told
  -- apart by their names alone, without opening them.
  all_goals
    repeat first
      | with_reducible refine (hany Convert.accepts_int).bind_any fun _ => ?_
      | with_reducible refine (hany Convert.accepts_truth).bind_any fun _ => ?_
      | with_reducible refine (hany Convert.accepts_double).bind_any fun _ => ?_
      | with_reducible refine (hany Convert.accepts_text).bind_any fun _ => ?_
      | with_reducible refine (hany Size.accepts_read).bind_any fun _ => ?_
    refine hrotation.bind fun _ => ?_
    repeat first
      | with_reducible refine (hany Convert.accepts_int).bind_any fun _ => ?_
      | with_reducible refine (hany Convert.accepts_truth).bind_any fun _ => ?_
      | with_reducible refine (hany Convert.accepts_double).bind_any fun _ => ?_
      | with_reducible refine (hany Convert.accepts_text).bind_any fun _ => ?_
  · exact .pure fun hturn => ⟨hturn, fun h => by cases h⟩
  · exact .pure fun hturn => ⟨hturn, fun _ => ⟨rfl, rfl⟩⟩

/-! ## The tree -/

/-- Whether the settings of a layer or of one on top of it are entries of some kind, in the document
of the layer. -/
inductive Value.HasSettings (B : Entries → Prop) : Value → Prop where
  | here {es ts : Entries} (settings : ("transforms", .object ts) ∈ es) (kind : B ts) :
      HasSettings B (.object es)
  | above {es ts : Entries} {vs : List Value} {l : Value}
      (settings : ("transforms", .object ts) ∈ es) (layers : ("layers", .list vs) ∈ ts)
      (item : l ∈ vs) (inside : HasSettings B l) : HasSettings B (.object es)

/-- Whether that is so of a layer that entries of a state give. -/
def Entries.LayersHave (B : Entries → Prop) (ts : Entries) : Prop :=
  ∃ vs l, ("layers", .list vs) ∈ ts ∧ l ∈ vs ∧ l.HasSettings B

theorem Value.hasSettings_object {B : Entries → Prop} {es : Entries} :
    (Value.object es).HasSettings B ↔
      ∃ ts, ("transforms", .object ts) ∈ es ∧ (B ts ∨ ts.LayersHave B) := by
  constructor
  · intro h
    cases h with
    | here settings kind => exact ⟨_, settings, .inl kind⟩
    | above settings layers item inside => exact ⟨_, settings, .inr ⟨_, _, layers, item, inside⟩⟩
  · rintro ⟨ts, settings, kind | ⟨vs, l, layers, item, inside⟩⟩
    · exact .here settings kind
    · exact .above settings layers item inside

theorem Value.HasSettings.exists_kind {B : Entries → Prop} {v : Value} (h : v.HasSettings B) :
    ∃ ts, B ts := by
  induction h with
  | here _ kind => exact ⟨_, kind⟩
  | above _ _ _ _ ih => exact ih

theorem Entries.layersHave_cons {B : Entries → Prop} {k : String} {v : Value} {es : Entries} :
    Entries.LayersHave B ((k, v) :: es) ↔
      (k = "layers" ∧ ∃ vs, v = .list vs ∧ ∃ l ∈ vs, l.HasSettings B) ∨ es.LayersHave B := by
  constructor
  · rintro ⟨vs, l, hlayers, hl, hin⟩
    rcases List.mem_cons.mp hlayers with heq | hlayers
    · cases heq
      exact .inl ⟨rfl, vs, rfl, l, hl, hin⟩
    · exact .inr ⟨vs, l, hlayers, hl, hin⟩
  · rintro (⟨rfl, vs, rfl, l, hl, hin⟩ | ⟨vs, l, hlayers, hl, hin⟩)
    · exact ⟨vs, l, List.mem_cons_self, hl, hin⟩
    · exact ⟨vs, l, List.mem_cons_of_mem _ hlayers, hl, hin⟩

theorem Value.hasSettings_cons {B : Entries → Prop} {k : String} {v : Value} {es : Entries} :
    (Value.object ((k, v) :: es)).HasSettings B ↔
      (k = "transforms" ∧ ∃ ts, v = .object ts ∧ (B ts ∨ Entries.LayersHave B ts)) ∨
        (Value.object es).HasSettings B := by
  simp only [hasSettings_object]
  constructor
  · rintro ⟨ts, hts, h⟩
    rcases List.mem_cons.mp hts with heq | hts
    · cases heq
      exact .inl ⟨rfl, ts, rfl, h⟩
    · exact .inr ⟨ts, hts, h⟩
  · rintro (⟨rfl, ts, rfl, h⟩ | ⟨ts, hts, h⟩)
    · exact ⟨ts, List.mem_cons_self, h⟩
    · exact ⟨ts, List.mem_cons_of_mem _ hts, h⟩

section

variable {P : Bool → Params → Prop} {Q : LayerProps → Prop}

theorem accepts_checkTransforms {v : Value}
    (h : (State.check true v).Accepts fun s => s.Holds P Q true) :
    (checkTransforms v).Accepts fun o => ∀ s ∈ o, s.Holds P Q true := by
  cases v with
  | null =>
      rw [checkTransforms]
      exact .pure fun _ h => by cases h
  | object es =>
      rw [checkTransforms]
      refine h.map fun s hs t ht => ?_
      cases ht
      exact hs
  | _ =>
      rw [checkTransforms]
      · exact .note
      · simp
      · simp

/-- Whether what is read of a layer has properties, if its settings are not entries of a kind. -/
structure ReadsAs (B : Entries → Prop) (P : Bool → Params → Prop) (Q : LayerProps → Prop) :
    Prop where
  params : ∀ es, ¬ B es → (Params.read true es).Accepts (P true)
  props : ∀ es, (LayerProps.read es).Accepts Q

variable {B : Entries → Prop}

mutual

/-- What holds of all settings that are read from entries, if these are not of a kind that is found
in layers, holds all over the tree that is read. -/
theorem State.accepts_check_of (hB : ReadsAs B P Q) (v : Value) (inLayer : Bool)
    (hroot : ∀ es, v = .object es → (Params.read inLayer es).Accepts (P inLayer))
    (h : ∀ es, v = .object es → ¬ Entries.LayersHave B es) :
    (State.check inLayer v).Accepts fun s => s.Holds P Q inLayer := by
  cases v with
  | object es =>
      have hlayers := accepts_checkLayersIn hB es (h es rfl)
      rw [State.check]
      refine (hroot es rfl).bind fun p => ?_
      refine hlayers.bind fun layers => .pure fun hls hp => ?_
      cases layers with
      | none => exact hp
      | some ls => exact ⟨hp, hls ls rfl⟩
  | _ =>
      rw [State.check]
      · exact .note
      · simp

theorem accepts_checkLayersIn (hB : ReadsAs B P Q) (es : List (String × Value))
    (h : ¬ Entries.LayersHave B es) :
    (checkLayersIn es).Accepts fun o => ∀ ls ∈ o, layersHold P Q ls := by
  cases es with
  | nil =>
      rw [checkLayersIn]
      exact .pure fun _ h => by cases h
  | cons e es =>
      obtain ⟨k, v⟩ := e
      have hrest := accepts_checkLayersIn hB es fun hes =>
        h (Entries.layersHave_cons.mpr (.inr hes))
      rw [checkLayersIn]
      split
      · rename_i hk
        refine (accepts_checkLayers hB v fun vs hv l hl hin => ?_).within _
        exact h (Entries.layersHave_cons.mpr (.inl ⟨hk, vs, hv, l, hl, hin⟩))
      · exact hrest

theorem accepts_checkLayers (hB : ReadsAs B P Q) (v : Value)
    (h : ∀ vs, v = .list vs → ∀ l ∈ vs, ¬ l.HasSettings B) :
    (checkLayers v).Accepts fun o => ∀ ls ∈ o, layersHold P Q ls := by
  cases v with
  | null =>
      rw [checkLayers]
      exact .pure fun _ h => by cases h
  | list vs =>
      have hitems := accepts_checkItems hB vs 0 (h vs rfl)
      rw [checkLayers]
      refine hitems.map fun ls hls ls' h => ?_
      cases h
      exact hls
  | _ =>
      rw [checkLayers]
      · exact .note
      · simp
      · simp

theorem accepts_checkItems (hB : ReadsAs B P Q) (vs : List Value) (n : ℕ)
    (h : ∀ l ∈ vs, ¬ l.HasSettings B) :
    (checkItems n vs).Accepts (layersHold P Q) := by
  cases vs with
  | nil =>
      rw [checkItems]
      exact .pure trivial
  | cons v vs =>
      have hlayer := Layer.accepts_check_of hB v (h v List.mem_cons_self)
      have hrest := accepts_checkItems hB vs (n + 1) fun l hl => h l (List.mem_cons_of_mem _ hl)
      rw [checkItems]
      refine (hlayer.within _).bind fun l => ?_
      exact hrest.bind fun ls => .pure fun hls hl => ⟨hl, hls⟩

theorem Layer.accepts_check_of (hB : ReadsAs B P Q) (v : Value) (h : ¬ v.HasSettings B) :
    (Layer.check v).Accepts (Layer.Holds P Q) := by
  cases v with
  | object es =>
      have htransforms := accepts_checkTransformsIn hB es h
      rw [Layer.check]
      refine (hB.props es).bind fun p => ?_
      refine htransforms.bind fun transforms => .pure fun hs hp => ?_
      cases transforms with
      | none => exact hp
      | some s => exact ⟨hp, hs s rfl⟩
  | _ =>
      rw [Layer.check]
      · exact .note
      · simp

theorem accepts_checkTransformsIn (hB : ReadsAs B P Q) (es : List (String × Value))
    (h : ¬ (Value.object es).HasSettings B) :
    (checkTransformsIn es).Accepts fun o => ∀ s ∈ o, s.Holds P Q true := by
  cases es with
  | nil =>
      rw [checkTransformsIn]
      exact .pure fun _ h => by cases h
  | cons e es =>
      obtain ⟨k, v⟩ := e
      have hrest := accepts_checkTransformsIn hB es fun hes =>
        h (Value.hasSettings_cons.mpr (.inr hes))
      rw [checkTransformsIn]
      split
      · rename_i hk
        have hts : ∀ ts, v = .object ts → ¬ B ts ∧ ¬ Entries.LayersHave B ts := fun ts hv =>
          not_or.mp fun hts => h (Value.hasSettings_cons.mpr (.inl ⟨hk, ts, hv, hts⟩))
        exact (accepts_checkTransforms (State.accepts_check_of hB v true
          (fun ts hv => hB.params ts (hts ts hv).1) fun ts hv => (hts ts hv).2)).within _
      · exact hrest

end

end

/-- Whether a tree below the root, or the root, is in the form that reading gives. -/
abbrev State.ValidAt (inLayer : Bool) (s : State) : Prop :=
  s.Holds Params.Valid LayerProps.Valid inLayer

theorem State.accepts_check (v : Value) (inLayer : Bool) :
    (State.check inLayer v).Accepts (State.ValidAt inLayer) := by
  -- No entries are ruled out in layers.
  have hreads : ReadsAs (fun _ => False) Params.Valid LayerProps.Valid :=
    ⟨fun es _ => Params.accepts_read true es, LayerProps.accepts_read⟩
  refine State.accepts_check_of hreads v inLayer (fun es _ => Params.accepts_read inLayer es) ?_
  rintro es - ⟨vs, l, -, -, hl⟩
  obtain ⟨ts, hts⟩ := hl.exists_kind
  exact hts

/-- A state that is read is valid. -/
theorem State.valid_of_run {v : Value} {n : ℕ} {s : State}
    (h : ((State.check false v).run n).1 = .ok s) : s.Valid :=
  (State.accepts_check v false).of_run h

end Retouch
