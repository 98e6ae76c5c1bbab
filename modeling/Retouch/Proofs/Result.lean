/-
  What the results of computations are like.

  A computation in several steps has a result only if each of its steps has one.  The result of a
  validation may be a placeholder, if there were problems; what holds of all its results anyway
  (`Check.Yields`) holds of the one that leaves it, and so does what holds of its results without
  problems (`Check.Accepts`).
-/
import Retouch.Check

namespace Retouch

/-! ## Steps of a computation -/

section

variable {ε α β : Type} {x : Except ε α} {b : β}

theorem of_bind_eq_ok {f : α → Except ε β} (h : (x >>= f) = .ok b) :
    ∃ a, x = .ok a ∧ f a = .ok b := by
  cases x with
  | error e => cases h
  | ok a => exact ⟨a, rfl, h⟩

theorem of_bind_eq_error {f : α → Except ε β} {e : ε} (h : (x >>= f) = .error e) :
    x = .error e ∨ ∃ a, x = .ok a ∧ f a = .error e := by
  cases x with
  | error e' => exact .inl (congrArg Except.error (Except.error.inj h))
  | ok a => exact .inr ⟨a, rfl, h⟩

theorem of_map_eq_ok {f : α → β} (h : f <$> x = .ok b) : ∃ a, x = .ok a ∧ f a = b := by
  cases x with
  | error e => cases h
  | ok a => exact ⟨a, rfl, Except.ok.inj h⟩

theorem of_mapError_eq_ok {ε' : Type} {f : ε → ε'} {a : α} (h : x.mapError f = .ok a) :
    x = .ok a := by
  cases x with
  | error e => cases h
  | ok b => exact congrArg Except.ok (Except.ok.inj h)

end

/-- Whether a computation has a result. -/
def Succeeds {ε α : Type} (x : Except ε α) : Prop := ∃ a, x = .ok a

namespace Succeeds

variable {ε α β : Type}

theorem ok (a : α) : Succeeds (.ok a : Except ε α) := ⟨a, rfl⟩

theorem bind {x : Except ε α} {f : α → Except ε β} (hx : Succeeds x) (hf : ∀ a, Succeeds (f a)) :
    Succeeds (x >>= f) := by
  obtain ⟨a, rfl⟩ := hx
  exact hf a

theorem map {x : Except ε α} {f : α → β} (hx : Succeeds x) : Succeeds (f <$> x) := by
  obtain ⟨a, rfl⟩ := hx
  exact ⟨f a, rfl⟩

theorem lift {x : Except Number.Fault α} (hx : Succeeds x) :
    Succeeds (liftM x : Except Failure α) := by
  obtain ⟨a, rfl⟩ := hx
  exact ⟨a, rfl⟩

theorem mapM_option {o : Option α} {f : α → Except ε β} (hf : ∀ a ∈ o, Succeeds (f a)) :
    Succeeds (o.mapM f) := by
  cases o with
  | none => exact ok none
  | some a => exact (hf a rfl).bind fun b => ok (some b)

end Succeeds

/-- A result can be told by deciding what it is, if failures cannot be compared. -/
theorem of_toOption_eq_some {ε α : Type} {x : Except ε α} {a : α} (h : x.toOption = some a) :
    x = .ok a := by
  cases x with
  | error e => cases h
  | ok b => exact congrArg Except.ok (Option.some.inj h)

/-! ## What the result of a check is like -/

/-- Whether all results of a check, problems or not, are of a kind. -/
def Check.Yields {α : Type} (c : Check α) (P : α → Prop) : Prop :=
  ∀ p a q, c p = (.ok a, q) → P a

namespace Check

variable {α β : Type} {P : α → Prop}

theorem Yields.pure {a : α} (h : P a) : Yields (Pure.pure a : Check α) P := by
  intro p b q hrun
  cases hrun
  exact h

theorem Yields.bind {Q : β → Prop} {c : Check β} {f : β → Check α} (hc : c.Yields Q)
    (hf : ∀ b, Q b → (f b).Yields P) : (c >>= f).Yields P := by
  intro p a q hrun
  have hrun : ExceptT.bindCont f (c p).1 (c p).2 = (.ok a, q) := hrun
  cases hfirst : c p with
  | mk r p' =>
      rw [hfirst] at hrun
      cases r with
      | error e => cases hrun
      | ok b => exact hf b (hc p b p' hfirst) p' a q hrun

/-- Whatever the result of the first check, that of the second is of the kind. -/
theorem Yields.bind_any {c : Check β} {f : β → Check α} (hf : ∀ b, (f b).Yields P) :
    (c >>= f).Yields P :=
  Yields.bind (Q := fun _ => True) (fun _ _ _ _ => trivial) fun b _ => hf b

theorem Yields.within {c : Check α} (hc : c.Yields P) (step : Step) :
    (Check.within step c).Yields P := by
  intro p a q hrun
  cases hinner : c { p with problems := [] } with
  | mk r p' =>
      simp only [Check.within, hinner] at hrun
      cases hrun
      exact hc _ _ _ hinner

theorem Yields.of_run {c : Check α} (h : c.Yields P) {n : Nat} {a : α}
    (hrun : (c.run n).1 = .ok a) : P a := by
  unfold run at hrun
  cases hc : c ⟨n, []⟩ with
  | mk r p =>
      rw [hc] at hrun
      cases r with
      | error e => cases hrun
      | ok b =>
          simp only at hrun
          split at hrun
          · cases hrun
            exact h _ _ _ hc
          · cases hrun

/-! ## What an accepted result is like -/

/-- Whether a check forgets no problem, and a result without a new one is of a kind. -/
def Accepts (c : Check α) (P : α → Prop) : Prop :=
  ∀ p a q, c p = (.ok a, q) → p.problems.length ≤ q.problems.length ∧
    (q.problems.length = p.problems.length → P a)

theorem Accepts.pure {a : α} (h : P a) : Accepts (Pure.pure a : Check α) P := by
  intro p b q hrun
  cases hrun
  exact ⟨Nat.le_refl _, fun _ => h⟩

/-- A placeholder is never accepted. -/
theorem Accepts.note {kind : Problem.Kind} {a : α} : Accepts (Check.note kind a) P := by
  intro p b q hrun
  cases hrun
  simp

theorem Accepts.throw {f : Failure} : Accepts (MonadExcept.throw f : Check α) P := by
  intro p b q hrun
  cases hrun

theorem Accepts.freshId {P : String → Prop} (h : ∀ id, P id) : Accepts Check.freshId P := by
  intro p id q hrun
  cases hrun
  exact ⟨Nat.le_refl _, fun _ => h _⟩

/-- What the second check makes of a result may depend on the first one being accepted. -/
theorem Accepts.bind {Q : β → Prop} {c : Check β} {f : β → Check α} (hc : c.Accepts Q)
    (hf : ∀ b, (f b).Accepts fun a => Q b → P a) : (c >>= f).Accepts P := by
  intro p a q hrun
  have hrun : ExceptT.bindCont f (c p).1 (c p).2 = (.ok a, q) := hrun
  cases hfirst : c p with
  | mk r p' =>
      rw [hfirst] at hrun
      cases r with
      | error e => cases hrun
      | ok b =>
          obtain ⟨hgrown, hb⟩ := hc p b p' hfirst
          obtain ⟨hgrown', ha⟩ := hf b p' a q hrun
          exact ⟨by omega, fun h => ha (by omega) (hb (by omega))⟩

theorem Accepts.mono {Q : α → Prop} {c : Check α} (hc : c.Accepts Q) (h : ∀ a, Q a → P a) :
    c.Accepts P := by
  intro p a q hrun
  obtain ⟨hgrown, ha⟩ := hc p a q hrun
  exact ⟨hgrown, fun hq => h a (ha hq)⟩

/-- What all results are like, if something is so, is known of an accepted one too. -/
theorem Accepts.and_yields {R : Prop} {Q : α → Prop} {c : Check α} (hc : c.Accepts P)
    (hy : R → c.Yields Q) : c.Accepts fun a => P a ∧ (R → Q a) := by
  intro p a q hrun
  obtain ⟨hgrown, ha⟩ := hc p a q hrun
  exact ⟨hgrown, fun hq => ⟨ha hq, fun hr => hy hr p a q hrun⟩⟩

theorem Accepts.bind_any {Q : β → Prop} {c : Check β} {f : β → Check α} (hc : c.Accepts Q)
    (hf : ∀ b, (f b).Accepts P) : (c >>= f).Accepts P :=
  hc.bind fun b => (hf b).mono fun _ h _ => h

theorem Accepts.map {Q : β → Prop} {c : Check β} {f : β → α} (hc : c.Accepts Q)
    (hf : ∀ b, Q b → P (f b)) : (f <$> c).Accepts P := by
  rw [← bind_pure_comp]
  exact hc.bind fun b => .pure (hf b)

theorem Accepts.within {c : Check α} (hc : c.Accepts P) (step : Step) :
    (Check.within step c).Accepts P := by
  intro p a q hrun
  cases hinner : c { p with problems := [] } with
  | mk r p' =>
      simp only [Check.within, hinner] at hrun
      cases hrun
      obtain ⟨-, ha⟩ := hc _ _ _ hinner
      simp only [List.length_append, List.length_map]
      refine ⟨by omega, fun h => ha ?_⟩
      show p'.problems.length = 0
      omega

theorem Accepts.of_run {c : Check α} (h : c.Accepts P) {n : Nat} {a : α}
    (hrun : (c.run n).1 = .ok a) : P a := by
  unfold run at hrun
  cases hc : c ⟨n, []⟩ with
  | mk r p =>
      rw [hc] at hrun
      cases r with
      | error e => cases hrun
      | ok b =>
          simp only at hrun
          split at hrun
          · rename_i hempty
            cases hrun
            exact (h _ _ _ hc).2 (by rw [List.isEmpty_iff.mp hempty])
          · cases hrun

end Check

end Retouch
