/-
  What the settings of all layers of a tree are like.

  A property of settings may hold in every layer of a tree, at any depth (`State.Bears`); the
  settings at the root, which are those of the image itself, have no part in it.  What a path leads
  to has it then (`State.Bears.stateAt?`), and a change along a path keeps it if what it puts there
  has it (`State.Bears.updateLayersAt`, `State.Bears.setTransformsAt`).
-/
import Retouch.Proofs.State.ReadBack
import Retouch.Proofs.Tree.Path

namespace Retouch

/-! ## All layers of a tree -/

section

variable {P P' : Bool → Params → Prop} {Q Q' : LayerProps → Prop}

theorem layersHold_iff {ls : List Layer} : layersHold P Q ls ↔ ∀ l ∈ ls, l.Holds P Q := by
  induction ls with
  | nil => exact iff_of_true trivial fun _ h => nomatch h
  | cons l ls ih => simp [layersHold, ih]

mutual

theorem State.Holds.mono (hP : ∀ p, P true p → P' true p) (hQ : ∀ p, Q p → Q' p) (s : State)
    (h : s.Holds P Q true) : s.Holds P' Q' true := by
  obtain ⟨p, _ | ls⟩ := s
  · exact hP p h
  · exact ⟨hP p h.1, layersHold.mono hP hQ ls h.2⟩

theorem layersHold.mono (hP : ∀ p, P true p → P' true p) (hQ : ∀ p, Q p → Q' p)
    (ls : List Layer) (h : layersHold P Q ls) : layersHold P' Q' ls := by
  cases ls with
  | nil => exact trivial
  | cons l ls => exact ⟨Layer.Holds.mono hP hQ l h.1, layersHold.mono hP hQ ls h.2⟩

/-- What is weaker than something that holds in a layer holds there. -/
theorem Layer.Holds.mono (hP : ∀ p, P true p → P' true p) (hQ : ∀ p, Q p → Q' p) (l : Layer)
    (h : l.Holds P Q) : l.Holds P' Q' := by
  obtain ⟨p, _ | s⟩ := l
  · exact hQ p h
  · exact ⟨hQ p h.1, State.Holds.mono hP hQ s h.2⟩

end

end

variable {P Q : Params → Prop}

/-- Whether the settings of a layer, and of all layers on top of it, have a property. -/
def Layer.Bears (P : Params → Prop) (l : Layer) : Prop := l.Holds (fun _ => P) fun _ => True

/-- Whether the settings of all layers of a tree have a property. -/
def State.Bears (P : Params → Prop) (s : State) : Prop := ∀ l ∈ s.layerList, l.Bears P

theorem Layer.bears_iff {l : Layer} :
    l.Bears P ↔ ∀ s ∈ l.transforms, P s.params ∧ s.Bears P := by
  obtain ⟨p, _ | ⟨q, _ | ls⟩⟩ := l
  · exact iff_of_true trivial fun _ h => nomatch h
  · simp [Layer.Bears, Layer.Holds, State.Holds, State.Bears, State.layerList]
  · simp [Layer.Bears, Layer.Holds, State.Holds, State.Bears, State.layerList, layersHold_iff]

theorem Layer.Bears.of_transforms {l m : Layer} (h : l.Bears P)
    (hm : m.transforms = l.transforms) : m.Bears P :=
  bears_iff.mpr (hm ▸ bears_iff.mp h)

theorem Layer.Bears.mono {l : Layer} (h : l.Bears P) (hPQ : ∀ p, P p → Q p) : l.Bears Q :=
  Layer.Holds.mono hPQ (fun _ h => h) l h

theorem State.Bears.mono {s : State} (h : s.Bears P) (hPQ : ∀ p, P p → Q p) : s.Bears Q :=
  fun l hl => (h l hl).mono hPQ

/-- The settings at the root do not matter. -/
theorem State.Bears.of_layers {s t : State} (h : s.Bears P) (ht : t.layers = s.layers) :
    t.Bears P := by
  unfold Bears layerList
  rw [ht]
  exact h

theorem State.bears_empty : State.empty.Bears P := fun _ h => nomatch h

/-- A layer without settings counts as one with settings that ask for nothing. -/
theorem Layer.Bears.state {l : Layer} (h : l.Bears P) (hempty : P {}) :
    P l.state.params ∧ l.state.Bears P := by
  obtain ⟨p, _ | s⟩ := l
  · exact ⟨hempty, State.bears_empty⟩
  · exact bears_iff.mp h s rfl

/-! ## Taking layers out of a tree -/

namespace State

variable {s t : State} {path : List String}

theorem Bears.child? (h : s.Bears P) {id : String} {l : Layer} (hl : s.child? id = some l) :
    l.Bears P :=
  h l (List.mem_of_find?_eq_some hl)

theorem Bears.stateAt? (h : s.Bears P) (hempty : P {}) (ht : s.stateAt? path = some t) :
    (path ≠ [] → P t.params) ∧ t.Bears P := by
  induction path generalizing s with
  | nil =>
      obtain rfl := Option.some.inj ht
      exact ⟨fun hne => absurd rfl hne, h⟩
  | cons id rest ih =>
      rw [State.stateAt?] at ht
      obtain ⟨l, hl, ht⟩ := Option.bind_eq_some_iff.mp ht
      -- The layer may be without settings; then it stands for the empty state.
      obtain ⟨hparams, hstate⟩ := (h.child? hl).state hempty
      obtain ⟨hrest, hbears⟩ := ih hstate ht
      refine ⟨fun _ => ?_, hbears⟩
      cases rest with
      | nil =>
          obtain rfl := Option.some.inj ht
          exact hparams
      | cons next rest => exact hrest (List.cons_ne_nil next rest)

theorem Bears.layerAt? (h : s.Bears P) (hempty : P {}) {l : Layer}
    (hl : s.layerAt? path = some l) : l.Bears P := by
  induction path generalizing s with
  | nil => cases hl
  | cons id rest ih =>
      cases rest with
      | nil => exact h.child? hl
      | cons next rest =>
          rw [State.layerAt?] at hl
          · obtain ⟨k, hk, hl⟩ := Option.bind_eq_some_iff.mp hl
            exact ih ((h.child? hk).state hempty).2 hl
          · simp

end State

/-! ## Changing layers of a tree -/

/-- Whatever holds of all layers still does if it holds of the one that is put among them. -/
theorem forall_mem_replaceFirst {R : Layer → Prop} {id : String} {missing : Failure}
    {f : Layer → Except Failure Layer} {ls out : List Layer}
    (h : replaceFirst id missing f ls = .ok out) (hls : ∀ l ∈ ls, R l)
    (hf : ∀ l m, R l → f l = .ok m → R m) : ∀ l ∈ out, R l := by
  induction ls generalizing out with
  | nil => cases h
  | cons l ls ih =>
      obtain ⟨hl, hls⟩ := List.forall_mem_cons.mp hls
      rw [replaceFirst] at h
      split at h
      · obtain ⟨m, hm, hout⟩ := of_bind_eq_ok h
        cases hout
        exact List.forall_mem_cons.mpr ⟨hf l m hl hm, hls⟩
      · obtain ⟨rest, hrest, hout⟩ := of_bind_eq_ok h
        cases hout
        exact List.forall_mem_cons.mpr ⟨hl, ih hrest hls⟩

namespace State

variable {s s' : State} {path : List String}

theorem Bears.updateLayersAt {f : List Layer → Except Failure (List Layer)} (hs : s.Bears P)
    (hempty : P {}) (h : s.updateLayersAt f path = .ok s')
    (hf : ∀ ls out, (∀ l ∈ ls, l.Bears P) → f ls = .ok out → ∀ l ∈ out, l.Bears P) :
    s'.Bears P := by
  induction path generalizing s s' with
  | nil =>
      rw [State.updateLayersAt] at h
      obtain ⟨ls, hls, hs'⟩ := of_bind_eq_ok h
      cases hs'
      exact hf _ ls hs hls
  | cons id rest ih =>
      rw [State.updateLayersAt] at h
      obtain ⟨out, hout, hs'⟩ := of_bind_eq_ok h
      cases hs'
      refine forall_mem_replaceFirst hout hs fun l m hl hm => ?_
      obtain ⟨t, ht, hm⟩ := of_bind_eq_ok hm
      cases hm
      obtain ⟨hparams, hstate⟩ := hl.state hempty
      refine Layer.bears_iff.mpr fun u hu => ?_
      cases hu
      exact ⟨(updateLayersAt_ok ht).1 ▸ hparams, ih hstate ht⟩

theorem Bears.replaceLayerAt {f : Layer → Layer} (hs : s.Bears P) (hempty : P {})
    (h : s.replaceLayerAt path f = .ok s') (hf : ∀ l, l.Bears P → (f l).Bears P) :
    s'.Bears P := by
  rw [State.replaceLayerAt] at h
  split at h
  · cases h
  · refine hs.updateLayersAt hempty h fun ls out hls hout => ?_
    refine forall_mem_replaceFirst hout hls fun l m hl hm => ?_
    cases hm
    exact hf l hl

theorem Bears.setTransformsAt {t : State} (hs : s.Bears P) (hempty : P {})
    (h : s.setTransformsAt path t = .ok s') (hparams : P t.withoutIdentity.params)
    (ht : t.Bears P) : s'.Bears P := by
  refine hs.replaceLayerAt hempty h fun l _ => Layer.bears_iff.mpr fun u hu => ?_
  cases hu
  exact ⟨hparams, ht⟩

end State

end Retouch
