/-
  Which trees a history has.

  A tree gets into a history by being recorded.  It is stored as it was if it does not say that its
  crop is being edited by hand, so a property of such trees that holds of all that are recorded
  holds of all trees of the history (`Consists`), and of those that undo and redo bring back.
-/
import Retouch.Proofs.History.Cursor

namespace Retouch.History

/-- Whether all trees of a history have a property: the entries on both sides and the capture. -/
structure Consists (T : State → Prop) (h : History) : Prop where
  past : ∀ s ∈ h.past, T s
  future : ∀ s ∈ h.future, T s
  pending : ∀ s ∈ h.pending, T s

namespace Consists

variable {T U : State → Prop} {h : History} {s : State}

theorem empty (limit : Nat) : Consists T { limit } :=
  ⟨List.forall_mem_nil T, List.forall_mem_nil T, fun _ hs => by cases hs⟩

theorem mono (hc : h.Consists T) (hTU : ∀ s, T s → U s) : h.Consists U :=
  ⟨fun s hs => hTU s (hc.past s hs), fun s hs => hTU s (hc.future s hs),
    fun s hs => hTU s (hc.pending s hs)⟩

theorem record (hc : h.Consists T) (hs : T s) : (h.record s).1.Consists T := by
  refine ⟨hc.past, hc.future, fun t ht => ?_⟩
  rw [pending_record] at ht
  cases ht
  cases hp : h.pending with
  | none => exact hs
  | some t => exact hc.pending t hp

variable (hT : ∀ s, T s → s.Plain)

include hT

theorem cut (hs : T s) {side : List State} (hside : ∀ t ∈ side, T t) (limit : Nat) :
    ∀ t ∈ (s.withoutVisualCrop :: side).take limit, T t := by
  intro t ht
  -- A tree that may be recorded has no mark, so taking it off leaves the tree.
  rw [(hT s hs).withoutVisualCrop_eq] at ht
  rcases List.mem_cons.mp (List.mem_of_mem_take ht) with rfl | ht
  · exact hs
  · exact hside t ht

theorem push (hc : h.Consists T) (hs : T s) : (h.push s).1.Consists T := by
  rcases push_cases h s with heq | heq
  · rw [heq]
    exact hc
  · rw [heq]
    exact ⟨cut hT hs hc.past h.limit, List.forall_mem_nil T, hc.pending⟩

theorem commit (hc : h.Consists T) : h.commit.1.Consists T := by
  cases hp : h.pending with
  | none =>
      rw [commit_of_pending_none hp]
      exact hc
  | some s =>
      have hrest : Consists T { h with pending := none } :=
        ⟨hc.past, hc.future, fun _ hs => by cases hs⟩
      simp only [History.commit, hp]
      exact hrest.push hT (hc.pending s hp)

theorem flush (hc : h.Consists T) : h.flush.1.Consists T := hc.commit hT

theorem checkpoint (hc : h.Consists T) (hs : T s) : (h.checkpoint s).1.Consists T :=
  (hc.flush hT).push hT hs

/-- Going back brings back such a tree. -/
theorem undo (hc : h.Consists T) (hs : T s) :
    (∀ t ∈ (h.undo s).1, T t) ∧ (h.undo s).2.1.Consists T := by
  have hf := hc.flush hT
  cases hpast : h.flush.1.past with
  | nil =>
      obtain ⟨htree, hhistory⟩ := undo_of_past_nil s hpast
      rw [htree, hhistory]
      exact ⟨fun _ ht => (by cases ht), hf⟩
  | cons t past =>
      obtain ⟨htree, hhistory⟩ := undo_of_past_cons s hpast
      obtain ⟨ht, hpast⟩ := List.forall_mem_cons.mp (hpast ▸ hf.past)
      rw [htree, hhistory]
      refine ⟨fun u hu => ?_, hpast, cut hT hs hf.future _, hf.pending⟩
      cases hu
      exact ht

/-- Going forward brings back such a tree. -/
theorem redo (hc : h.Consists T) (hs : T s) :
    (∀ t ∈ (h.redo s).1, T t) ∧ (h.redo s).2.1.Consists T := by
  have hf := hc.flush hT
  cases hfuture : h.flush.1.future with
  | nil =>
      obtain ⟨htree, hhistory⟩ := redo_of_future_nil s hfuture
      rw [htree, hhistory]
      exact ⟨fun _ ht => (by cases ht), hf⟩
  | cons t future =>
      obtain ⟨htree, hhistory⟩ := redo_of_future_cons s hfuture
      obtain ⟨ht, hfuture⟩ := List.forall_mem_cons.mp (hfuture ▸ hf.future)
      rw [htree, hhistory]
      refine ⟨fun u hu => ?_, cut hT hs hf.past _, hfuture, hf.pending⟩
      cases hu
      exact ht

end Consists

end Retouch.History
