/-
  Documents that are read in one way only.

  An accepted result of a check can depend on how many ids were issued before, if the document has a
  layer without an id.  Everything else is read from the document alone: where such a check is
  accepted it is a plain result, and does nothing besides (`Check.Definite`).  The tree follows by
  recursion on the value, as long as all its layers carry ids (`Value.Nameless`).
-/
import Retouch.Proofs.State.Valid

namespace Retouch

/-! ## Checks with a plain result -/

namespace Check

variable {α β : Type} {c : Check α}

/-- Whether a check that is accepted is nothing but its result. -/
def Definite (c : Check α) : Prop := c.Accepts fun a => c = Pure.pure a

theorem Definite.pure (a : α) : Definite (Pure.pure a : Check α) := Accepts.pure rfl

theorem Definite.note (kind : Problem.Kind) (a : α) : Definite (Check.note kind a) := Accepts.note

theorem Definite.throw (f : Failure) : Definite (MonadExcept.throw f : Check α) := Accepts.throw

theorem Definite.bind {f : α → Check β} (hc : c.Definite) (hf : ∀ a, (f a).Definite) :
    (c >>= f).Definite :=
  Accepts.bind hc fun a => (hf a).mono fun b hb ha => by rw [ha, pure_bind, hb]

theorem Definite.map {f : α → β} (hc : c.Definite) : (f <$> c).Definite :=
  Accepts.map hc fun a ha => by rw [ha, map_pure]

theorem Definite.within (hc : c.Definite) (step : Step) : (Check.within step c).Definite :=
  (Accepts.within hc step).mono fun a ha => by rw [ha, within_pure]

/-- What is known of every accepted result is known of a plain one. -/
theorem Accepts.of_pure {P : α → Prop} {a : α} (h : (Pure.pure a : Check α).Accepts P) : P a :=
  (h ⟨0, []⟩ a ⟨0, []⟩ rfl).2 rfl

/-- A run of a definite check that has a result issues no id. -/
theorem Definite.of_run (hc : c.Definite) {n m : Nat} {a : α} (h : c.run n = (.ok a, m)) :
    c = Pure.pure a ∧ m = n := by
  have hpure : c = Pure.pure a := Accepts.of_run hc (congrArg Prod.fst h)
  rw [hpure] at h
  exact ⟨hpure, (congrArg Prod.snd h).symm⟩

end Check

open Check (Definite)

/-! ## Conversions -/

section

variable (v : Value)

theorem Convert.definite_text : (Convert.text v).Definite := by
  unfold Convert.text
  split
  · exact .pure _
  · exact .note _ _
  · exact .note _ _

theorem Convert.definite_int : (Convert.int v).Definite := by
  unfold Convert.int
  split
  · exact .pure _
  · exact .pure _
  · split
    · exact .pure _
    · exact .note _ _
  · split
    · exact .note _ _
    · split
      · exact .pure _
      · exact .note _ _
  · exact .note _ _
  · exact .note _ _

theorem Convert.definite_double : (Convert.double v).Definite := by
  unfold Convert.double
  split
  · exact .pure _
  · split
    · exact .pure _
    · exact .note _ _
  · exact .pure _
  · split
    · exact .pure _
    · exact .note _ _
  · exact .note _ _
  · exact .note _ _

theorem Convert.definite_truth : (Convert.truth v).Definite := by
  have hwhole : ∀ n, (Convert.truth.ofWhole n).Definite := by
    intro n
    unfold Convert.truth.ofWhole
    split
    · exact .pure _
    · split
      · exact .pure _
      · exact .note _ _
  unfold Convert.truth
  split
  · exact .pure _
  · exact hwhole _
  · split
    · exact hwhole _
    · exact .note _ _
  · split
    · exact .pure _
    · exact .note _ _
  · exact .note _ _
  · exact .note _ _

theorem Convert.definite_intBetween (low high : Int) :
    (Convert.intBetween low high v).Definite := by
  refine (Convert.definite_int v).bind fun n => ?_
  split
  · exact .note _ _
  · split
    · exact .note _ _
    · exact .pure _

theorem Convert.definite_rotation : (Convert.rotation v).Definite := by
  have hfold : ∀ o, (Convert.rotation.fold o).Definite := by
    intro o
    unfold Convert.rotation.fold
    split
    · exact .pure _
    · exact .note _ _
  unfold Convert.rotation
  split
  · exact hfold _
  · exact hfold _
  · split
    · exact hfold _
    · exact .note _ _
    · exact .throw _
  · exact hfold _
  · exact .note _ _
  · exact .throw _

theorem Blend.definite_read : (Blend.read v).Definite := by
  unfold Blend.read
  split
  · split
    · exact .pure _
    · exact .note _ _
  · exact .note _ _

theorem Position.definite_check : (Position.check v).Definite := by
  unfold Position.check
  split
  · exact .pure _
  · exact .note _ _

end

/-! ## Parts of a layer -/

section

variable {α : Type} {es : Entries} {c : Value → Check α}

theorem definite_required [Inhabited α] {key : String} (hc : ∀ v, (c v).Definite) :
    (Convert.required es key c).Definite := by
  unfold Convert.required
  split
  · exact (hc _).within _
  · exact (Definite.note _ _).within _

theorem definite_requiredField [Inhabited α] {first second : String}
    (hc : ∀ v, (c v).Definite) : (requiredField es first second c).Definite := by
  unfold requiredField
  split
  · exact (hc _).within _
  · exact (Definite.note _ _).within _

theorem definite_fieldOr {first second : String} {default : α} (hc : ∀ v, (c v).Definite) :
    (fieldOr es first second default c).Definite := by
  unfold fieldOr
  split
  · exact (hc _).within _
  · exact .pure _

theorem definite_optionalField {f : Field} (hc : ∀ v, (c v).Definite) :
    (optionalField es f c).Definite := by
  unfold optionalField
  split
  · exact .pure _
  · exact .pure _
  · exact (hc _).map.within _

end

theorem Size.definite_read (v : Value) : (Size.read v).Definite := by
  unfold Size.read
  split
  · refine (definite_required Convert.definite_int).bind fun _ => ?_
    refine (definite_required Convert.definite_int).bind fun _ => ?_
    exact .pure _
  · exact .note _ _

/-- The properties of a layer that carries its id. -/
theorem LayerProps.definite_read {es : Entries} (hid : es.lookup "id" ≠ none) :
    (LayerProps.read es).Definite := by
  unfold LayerProps.read
  extract_lets rest
  have hrest : ∀ id, (rest id).Definite := by
    intro id
    refine (definite_requiredField Convert.definite_text).bind fun _ => ?_
    refine (definite_requiredField Size.definite_read).bind fun _ => ?_
    refine (definite_fieldOr Position.definite_check).bind fun _ => ?_
    refine (definite_fieldOr Position.definite_check).bind fun _ => ?_
    refine (definite_fieldOr fun v => Convert.definite_intBetween v 0 100).bind fun _ => ?_
    refine (definite_fieldOr Blend.definite_read).bind fun _ => ?_
    refine (definite_fieldOr Convert.definite_truth).bind fun _ => ?_
    refine (definite_fieldOr Convert.definite_text).bind fun _ => ?_
    exact .pure _
  split
  · exact ((Convert.definite_text _).within _).bind hrest
  · rename_i hnone
    exact absurd hnone hid

theorem Params.definite_read (inLayer : Bool) (es : Entries) :
    (Params.read inLayer es).Definite := by
  unfold Params.read
  cases inLayer <;> simp only [pure_bind, if_true, Bool.false_eq_true, if_false]
  -- Conversions are told apart by their names alone, without opening them.
  all_goals
    repeat first
      | with_reducible refine (definite_optionalField Convert.definite_int).bind fun _ => ?_
      | with_reducible refine (definite_optionalField Convert.definite_truth).bind fun _ => ?_
      | with_reducible refine (definite_optionalField Convert.definite_double).bind fun _ => ?_
      | with_reducible refine (definite_optionalField Convert.definite_text).bind fun _ => ?_
      | with_reducible refine (definite_optionalField Convert.definite_rotation).bind fun _ => ?_
      | with_reducible refine (definite_optionalField Size.definite_read).bind fun _ => ?_
    exact .pure _

/-! ## The tree -/

/-- Whether the document of a layer, or that of a layer on top of it, has no id. -/
inductive Value.Nameless : Value → Prop where
  | here {es : Entries} (id : es.lookup "id" = none) : Nameless (.object es)
  | above {es ts : Entries} {vs : List Value} {l : Value}
      (settings : es.lookup "transforms" = some (.object ts))
      (layers : ts.lookup "layers" = some (.list vs)) (item : l ∈ vs) (inside : Nameless l) :
      Nameless (.object es)

/-- Whether a value for the layers of a state lists one without an id. -/
def Value.ListsNameless (v : Value) : Prop := ∃ vs l, v = .list vs ∧ l ∈ vs ∧ l.Nameless

mutual

theorem State.definite_check (v : Value) (inLayer : Bool)
    (h : ∀ es layers, v = .object es → Entries.lookup "layers" es = some layers →
      ¬ layers.ListsNameless) : (State.check inLayer v).Definite := by
  cases v with
  | object es =>
      have hlayers := definite_checkLayersIn es fun layers => h es layers rfl
      rw [State.check]
      refine (Params.definite_read inLayer es).bind fun _ => ?_
      exact hlayers.bind fun _ => .pure _
  | _ =>
      rw [State.check]
      · exact .note _ _
      · simp

theorem definite_checkLayersIn (es : List (String × Value))
    (h : ∀ layers, Entries.lookup "layers" es = some layers → ¬ layers.ListsNameless) :
    (checkLayersIn es).Definite := by
  cases es with
  | nil =>
      rw [checkLayersIn]
      exact .pure _
  | cons e es =>
      obtain ⟨k, v⟩ := e
      rw [Entries.lookup] at h
      rw [checkLayersIn]
      split
      · rename_i hk
        refine (definite_checkLayers v fun vs hv l hl hin => ?_).within _
        exact h v (if_pos hk) ⟨vs, l, hv, hl, hin⟩
      · rename_i hk
        exact definite_checkLayersIn es fun layers hlayers => h layers ((if_neg hk).trans hlayers)

theorem definite_checkLayers (v : Value) (h : ∀ vs, v = .list vs → ∀ l ∈ vs, ¬ l.Nameless) :
    (checkLayers v).Definite := by
  cases v with
  | null =>
      rw [checkLayers]
      exact .pure _
  | list vs =>
      have hitems := definite_checkItems vs 0 (h vs rfl)
      rw [checkLayers]
      exact hitems.map
  | _ =>
      rw [checkLayers]
      · exact .note _ _
      · simp
      · simp

theorem definite_checkItems (vs : List Value) (n : ℕ) (h : ∀ l ∈ vs, ¬ l.Nameless) :
    (checkItems n vs).Definite := by
  cases vs with
  | nil =>
      rw [checkItems]
      exact .pure _
  | cons v vs =>
      have hlayer := Layer.definite_check v (h v List.mem_cons_self)
      have hrest := definite_checkItems vs (n + 1) fun l hl => h l (List.mem_cons_of_mem _ hl)
      rw [checkItems]
      refine (hlayer.within _).bind fun _ => ?_
      exact hrest.bind fun _ => .pure _

theorem Layer.definite_check (v : Value) (h : ¬ v.Nameless) : (Layer.check v).Definite := by
  cases v with
  | object es =>
      have htransforms := definite_checkTransformsIn es fun ts vs l hts hvs hl hin =>
        h (.above hts hvs hl hin)
      rw [Layer.check]
      refine (LayerProps.definite_read fun hid => h (.here hid)).bind fun _ => ?_
      exact htransforms.bind fun _ => .pure _
  | _ =>
      rw [Layer.check]
      · exact .note _ _
      · simp

theorem definite_checkTransformsIn (es : List (String × Value))
    (h : ∀ ts vs l, Entries.lookup "transforms" es = some (.object ts) →
      Entries.lookup "layers" ts = some (.list vs) → l ∈ vs → ¬ l.Nameless) :
    (checkTransformsIn es).Definite := by
  cases es with
  | nil =>
      rw [checkTransformsIn]
      exact .pure _
  | cons e es =>
      obtain ⟨k, v⟩ := e
      rw [Entries.lookup] at h
      rw [checkTransformsIn]
      split
      · rename_i hk
        have hstate := State.definite_check v true fun ts layers hv hlayers =>
          fun ⟨vs, l, hlist, hl, hin⟩ => h ts vs l ((if_pos hk).trans (congrArg some hv))
            (hlayers.trans (congrArg some hlist)) hl hin
        refine Definite.within ?_ _
        cases v with
        | null =>
            rw [checkTransforms]
            exact .pure _
        | object ts =>
            rw [checkTransforms]
            exact hstate.map
        | _ =>
            rw [checkTransforms]
            · exact .note _ _
            · simp
            · simp
      · rename_i hk
        exact definite_checkTransformsIn es fun ts vs l hts => h ts vs l ((if_neg hk).trans hts)

end

end Retouch
