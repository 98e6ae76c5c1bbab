/-
  Trees without the mark of the crop mode.

  Whether a crop is being edited by hand is never stored: entries of the history are stripped of
  the mark, and changes of the settings leave it out.  A tree without the mark does not get it from
  changes that do not name it (`plain_of_merged`), although every change reads all settings anew.
-/
import Retouch.Proofs.Result
import Retouch.State.Merge

namespace Retouch

/-! ## The mark -/

namespace State

/-- Whether a tree does not say that its crop is being edited by hand. -/
def Plain (s : State) : Prop := s.params.visualCropEnabled = none

theorem plain_withoutVisualCrop (s : State) : s.withoutVisualCrop.Plain := rfl

theorem Plain.withoutVisualCrop_eq {s : State} (h : s.Plain) : s.withoutVisualCrop = s := by
  obtain ⟨p, layers⟩ := s
  have hp : p.withoutVisualCrop = p := by
    cases p
    simp only [Plain] at h
    subst h
    rfl
  show State.mk p.withoutVisualCrop layers = ⟨p, layers⟩
  rw [hp]

end State

/-! ## Reading settings without the mark -/

namespace Entries

theorem lookup_erase_of_ne {key other : String} (h : other ≠ key) (es : Entries) :
    lookup other (erase key es) = lookup other es := by
  induction es with
  | nil => rfl
  | cons e es ih =>
      obtain ⟨k, v⟩ := e
      by_cases hk : k = key
      · subst hk
        simp [erase, lookup, Ne.symm h]
      · simp [erase, lookup, hk, ih]

/-- A key that entries made from fields do not use is not among them. -/
theorem lookup_filterMap_of_ne {key : String} {name : Field → String} (h : ∀ f, name f ≠ key)
    (get : Field → Option Value) (fs : List Field) :
    lookup key (fs.filterMap fun f => (get f).map (name f, ·)) = none := by
  induction fs with
  | nil => rfl
  | cons f fs ih =>
      cases hget : get f with
      | none => simpa [hget] using ih
      | some v => simpa [hget, lookup, h f] using ih

end Entries

/-- Setting a field brings in no other change. -/
theorem Changes.mem_put {cs : Changes} {f : Field} {v : Value} {x : Field × Value}
    (hx : x ∈ cs.put f v) : x = (f, v) ∨ x ∈ cs := by
  induction cs with
  | nil => exact .inl (List.mem_singleton.mp hx)
  | cons y cs ih =>
      obtain ⟨g, w⟩ := y
      rw [put] at hx
      split at hx
      · rename_i hg
        rcases List.mem_cons.mp hx with rfl | htail
        · exact .inl (hg ▸ rfl)
        · exact .inr (List.mem_cons_of_mem _ htail)
      · rcases List.mem_cons.mp hx with rfl | htail
        · exact .inr List.mem_cons_self
        · exact (ih htail).imp_right (List.mem_cons_of_mem _)

theorem Changes.find?_eq_none {cs : Changes} {f : Field} :
    cs.find? f = none ↔ ∀ c ∈ cs, c.1 ≠ f := by
  induction cs with
  | nil => simp [Changes.find?]
  | cons c cs ih =>
      obtain ⟨g, v⟩ := c
      by_cases hg : g = f
      · simp [Changes.find?, hg]
      · simp [Changes.find?, hg, ih]

/-- Changes of other fields leave what is at a key. -/
theorem Changes.lookup_apply_of_ne {cs : Changes} {key : String}
    (h : ∀ c ∈ cs, key ≠ c.1.spelled) (es : Entries) :
    Entries.lookup key (cs.apply es) = Entries.lookup key es := by
  unfold Changes.apply
  induction cs generalizing es with
  | nil => rfl
  | cons c cs ih =>
      obtain ⟨f, v⟩ := c
      have hf : key ≠ f.spelled := h (f, v) List.mem_cons_self
      rw [List.foldl_cons, ih fun c hc => h c (List.mem_cons_of_mem _ hc)]
      cases hv : v.isNull with
      | true => simpa [hv] using Entries.lookup_erase_of_ne hf es
      | false => simpa [hv] using Entries.lookup_put_of_ne hf v es

/-- Changes of settings leave what is written of the layers. -/
theorem State.lookup_layers_of_changes {s : State} {cs : Changes}
    (hcs : ∀ c ∈ cs, c.1 ≠ .layers) :
    Entries.lookup "layers" (cs.apply (s.entries Field.spelled)) =
      s.layers.map fun ls => .list (writeLayers ls) := by
  rw [Changes.lookup_apply_of_ne]
  · exact State.lookup_entries Field.spelled_inj s .layers
  · intro c hc heq
    exact hcs c hc (Field.spelled_inj _ .layers heq.symm)

/-- No field is spelled like the first spelling of the mark. -/
theorem Field.spelled_ne_visualCropEnabled (f : Field) : f.spelled ≠ "visualCropEnabled" := by
  cases f <;> decide

theorem Params.read_plain {inLayer : Bool} {es : Entries}
    (h : es.spelled? Field.visualCropEnabled.key Field.visualCropEnabled.spelled = none) :
    (Params.read inLayer es).Yields fun p => p.visualCropEnabled = none := by
  have hmark : optionalField es .visualCropEnabled Convert.truth = pure none := by
    rw [optionalField, h]
  unfold Params.read
  cases inLayer <;> simp only [hmark, pure_bind, if_true, Bool.false_eq_true, if_false]
  all_goals
    repeat refine Check.Yields.bind_any fun _ => ?_
    exact Check.Yields.pure rfl

/-- A state does not get the mark from changes that do not name it. -/
theorem State.plain_of_merged {s : State} {cs : Changes} (hs : s.Plain)
    (hcs : ∀ c ∈ cs, c.1 ≠ .visualCropEnabled) : (s.merged cs).Yields Plain := by
  have hfirst : Entries.lookup "visualCropEnabled" (cs.apply (s.entries Field.spelled)) = none := by
    rw [Changes.lookup_apply_of_ne fun c _ => (Field.spelled_ne_visualCropEnabled c.1).symm]
    exact Entries.lookup_filterMap_of_ne Field.spelled_ne_visualCropEnabled _ _
  have hsecond : Entries.lookup Field.visualCropEnabled.spelled
      (cs.apply (s.entries Field.spelled)) = none := by
    rw [Changes.lookup_apply_of_ne, State.lookup_entries Field.spelled_inj]
    · show s.params.visualCropEnabled.map Value.bool = none
      rw [show s.params.visualCropEnabled = none from hs, Option.map_none]
    · intro c hc heq
      exact hcs c hc (Field.spelled_inj _ _ heq).symm
  unfold merged
  rw [State.check]
  refine Check.Yields.bind (Params.read_plain ?_) fun p hp => ?_
  · rw [Entries.spelled?, show Field.visualCropEnabled.key = "visualCropEnabled" from rfl, hfirst,
      hsecond, Option.map_none]
  · exact Check.Yields.bind_any fun layers => Check.Yields.pure hp

end Retouch
