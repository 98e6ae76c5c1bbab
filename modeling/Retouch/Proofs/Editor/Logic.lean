/-
  Triples for operations on the editor.

  An operation may fail half way, and what it changed stays changed.  A triple therefore has two
  postconditions, one for the result and one for what a failure leaves.  The rules below follow the
  steps that operations are made of; an operation is taken apart with them once, and what is known
  of it afterwards is its triple.
-/
import Retouch.Editor.Basic

namespace Retouch.Editor

/-- A trace after ids were issued. -/
def Trace.issue (t : Trace) (n : Nat) : Trace :=
  { t with editor := { t.editor with issued := n } }

end Retouch.Editor

namespace Retouch.Edit

variable {α β : Type}

/-- From editors with `P`, an operation with a result leaves `Q` of it, and one that fails leaves
    `F`. -/
def Triple (P : Editor → Prop) (m : Edit α) (Q : α → Editor → Prop)
    (F : Editor → Prop) : Prop :=
  ∀ t : Editor.Trace, P t.editor →
    match m t with
    | (.ok a, u) => Q a u.editor
    | (.error _, u) => F u.editor

/-- Whether an operation leaves editors as it finds them in some respect, also when it fails. -/
def Keeps (I : Editor → Prop) (m : Edit α) : Prop := Triple I m (fun _ => I) I

/-! ## From triples to runs -/

variable {P F : Editor → Prop} {Q : α → Editor → Prop} {m : Edit α} {e : Editor}

theorem Triple.of_run_ok (h : Triple P m Q F) (he : P e) {a : α}
    (hok : (m.run e).result = .ok a) : Q a (m.run e).editor := by
  have ht := h ⟨e, []⟩ he
  unfold run at hok ⊢
  generalize m ⟨e, []⟩ = out at ht hok ⊢
  obtain ⟨r, u⟩ := out
  cases hok
  exact ht

theorem Triple.of_run (h : Triple P m Q F) (he : P e) {I : Editor → Prop}
    (hpost : ∀ a e', Q a e' → I e') (hfail : ∀ e', F e' → I e') :
    I (m.run e).editor := by
  have ht := h ⟨e, []⟩ he
  unfold run
  generalize m ⟨e, []⟩ = out at ht ⊢
  obtain ⟨r, u⟩ := out
  cases r with
  | ok a => exact hpost a _ ht
  | error f => exact hfail _ ht

/-- Where a failure is impossible there is a result. -/
theorem Triple.run_total (h : Triple P m Q fun _ => False) (he : P e) :
    ∃ a, (m.run e).result = .ok a ∧ Q a (m.run e).editor := by
  have ht := h ⟨e, []⟩ he
  unfold run
  generalize m ⟨e, []⟩ = out at ht ⊢
  obtain ⟨r, u⟩ := out
  cases r with
  | ok a => exact ⟨a, rfl, ht⟩
  | error f => exact ht.elim

theorem Keeps.of_run {I : Editor → Prop} (h : Keeps I m) (he : I e) :
    I (m.run e).editor :=
  Triple.of_run h he (fun _ _ => id) fun _ => id

/-! ## Runs step by step -/

section

variable {g : Editor → Except Failure α} {f : α → Edit β} {a : α} {t u : Editor.Trace}

theorem bind_of_ok (h : m t = (.ok a, u)) : (m >>= f) t = f a u := by
  show (ExceptT.bindCont f (m t).1 (m t).2 : Except Failure β × Editor.Trace) = _
  rw [h]
  rfl

theorem bind_of_error {x : Failure} (h : m t = (.error x, u)) :
    (m >>= f) t = (.error x, u) := by
  show (ExceptT.bindCont f (m t).1 (m t).2 : Except Failure β × Editor.Trace) = _
  rw [h]
  rfl

/-- A validation that notes nothing and issues no ids leaves all as it is. -/
theorem check_of_pure {c : Check α} (h : c = Pure.pure a) : check c t = (.ok a, t) := by
  rw [h]
  rfl

theorem run_view_bind_ok (h : g e = .ok a) : (view g >>= f).run e = (f a).run e := by
  have hview : view g ⟨e, []⟩ = (.ok a, ⟨e, []⟩) := congrArg (·, _) h
  unfold run
  rw [bind_of_ok hview]

/-- What fails at its first look changes nothing. -/
theorem run_view_bind_error {x : Failure} (h : g e = .error x) :
    (view g >>= f).run e = ⟨.error x, e, []⟩ := by
  have hview : view g ⟨e, []⟩ = (.error x, ⟨e, []⟩) := congrArg (·, _) h
  unfold run
  rw [bind_of_error hview]

end

/-! ## Rules -/

theorem Triple.conseq {P' F' : Editor → Prop} {Q' : α → Editor → Prop}
    (h : Triple P m Q F) (hpre : ∀ e, P' e → P e)
    (hpost : ∀ a e, Q a e → Q' a e) (hfail : ∀ e, F e → F' e) :
    Triple P' m Q' F' := by
  intro t ht
  have hout := h t (hpre _ ht)
  generalize m t = out at hout ⊢
  obtain ⟨r, u⟩ := out
  cases r with
  | ok a => exact hpost a _ hout
  | error f => exact hfail _ hout

theorem Triple.post_mono {Q' : α → Editor → Prop} (h : Triple P m Q F)
    (hpost : ∀ a e, Q a e → Q' a e) : Triple P m Q' F :=
  h.conseq (fun _ => id) hpost fun _ => id

theorem Triple.pre_mono {P' : Editor → Prop} (h : Triple P m Q F)
    (hpre : ∀ e, P' e → P e) : Triple P' m Q F :=
  h.conseq hpre (fun _ _ => id) fun _ => id

/-- What holds of an operation from each single editor holds of it. -/
theorem Triple.of_forall (h : ∀ e, P e → Triple (· = e) m Q F) :
    Triple P m Q F :=
  fun t ht => h t.editor ht t rfl

/-- What does not depend on the editor may be used where it is known. -/
theorem Triple.of_fact {R : Prop} (h : R → Triple P m Q F) : Triple (fun e => P e ∧ R) m Q F :=
  fun t ht => h ht.2 t ht.1

theorem Triple.pure (a : α) (h : ∀ e, P e → Q a e) :
    Triple P (Pure.pure a : Edit α) Q F :=
  fun t ht => h t.editor ht

theorem Triple.bind {R : α → Editor → Prop} {f : α → Edit β} {Q : β → Editor → Prop}
    (hm : Triple P m R F) (hf : ∀ a, Triple (R a) (f a) Q F) :
    Triple P (m >>= f) Q F := by
  intro t ht
  have hout := hm t ht
  show match ExceptT.bindCont f (m t).1 (m t).2 with
    | (.ok a, u) => Q a u.editor
    | (.error _, u) => F u.editor
  generalize m t = out at hout ⊢
  obtain ⟨r, u⟩ := out
  cases r with
  | ok a => exact hf a u hout
  | error f => exact hout

theorem Triple.map {f : α → β} {Q : β → Editor → Prop}
    (hm : Triple P m (fun a => Q (f a)) F) : Triple P (f <$> m) Q F := by
  rw [map_eq_pure_bind]
  exact hm.bind fun a => Triple.pure (f a) fun _ => id

theorem Triple.view {f : Editor → Except Failure α}
    (hok : ∀ e a, P e → f e = .ok a → Q a e)
    (herror : ∀ e x, P e → f e = .error x → F e) : Triple P (view f) Q F := by
  intro t ht
  show match (f t.editor, t) with
    | (.ok a, u) => Q a u.editor
    | (.error _, u) => F u.editor
  cases hf : f t.editor with
  | ok a => exact hok t.editor a ht hf
  | error x => exact herror t.editor x ht hf

/-- An operation that goes on with the editor that it finds. -/
theorem Triple.bind_view {f : Editor → Edit α} (h : ∀ e, P e → Triple (· = e) (f e) Q F) :
    Triple P (Edit.view .ok >>= f) Q F :=
  fun t ht => h t.editor ht t rfl

theorem Triple.change {f : Editor → Editor} {Q : Unit → Editor → Prop}
    (h : ∀ e, P e → Q () (f e)) : Triple P (change f) Q F :=
  fun t ht => h t.editor ht

theorem Triple.fail (f : Failure) (h : ∀ e, P e → F e) :
    Triple P (Edit.fail f : Edit α) Q F :=
  fun t ht => h t.editor ht

theorem Triple.check {c : Check α}
    (hok : ∀ e a n, P e → (c.run e.issued).1 = .ok a → Q a { e with issued := n })
    (herror : ∀ e n, P e → F { e with issued := n }) :
    Triple P (check c) Q F := by
  intro t ht
  show match ((c.run t.editor.issued).1,
      { t with editor := { t.editor with issued := (c.run t.editor.issued).2 } }) with
    | (.ok a, u) => Q a u.editor
    | (.error _, u) => F u.editor
  cases hrun : (c.run t.editor.issued).1 with
  | ok a => exact hok t.editor a _ ht hrun
  | error f => exact herror t.editor _ ht

theorem Triple.rewind {f : History → State → α × History × List History.Effect}
    (h : ∀ e, P e → Q (f e.history e.root).1 { e with history := (f e.history e.root).2.1 }) :
    Triple P (rewind f) Q F :=
  fun t ht => h t.editor ht

theorem Triple.recordBy {f : History → State → History × List History.Effect}
    {Q : Unit → Editor → Prop}
    (h : ∀ e, P e → Q () { e with history := (f e.history e.root).1 }) :
    Triple P (recordBy f) Q F :=
  Triple.rewind h

theorem Triple.mapRoot {f : State → Except Failure State} {Q : Unit → Editor → Prop}
    (hok : ∀ e root, P e → f e.root = .ok root → Q () { e with root })
    (herror : ∀ e x, P e → f e.root = .error x → F e) :
    Triple P (mapRoot f) Q F := by
  refine Triple.bind (R := fun root e => P e ∧ f e.root = .ok root) ?_ fun root => ?_
  · exact Triple.view (fun e root he hroot => ⟨he, hroot⟩) herror
  · exact Triple.change fun e he => hok e root he.1 he.2

/-- What was seen is as the editor shows it. -/
theorem Triple.bind_seen {f : Editor → Except Failure α} {g : α → Edit β} {Q : β → Editor → Prop}
    (hfail : ∀ e, P e → F e) (hg : ∀ a, Triple (fun e => P e ∧ f e = .ok a) (g a) Q F) :
    Triple P (Edit.view f >>= g) Q F :=
  Triple.bind (R := fun a e => P e ∧ f e = .ok a)
    (Triple.view (fun _ _ he hf => ⟨he, hf⟩) fun e _ he _ => hfail e he) hg

/-- What is known of all that may be seen is known of what was seen. -/
theorem Triple.bind_found {f : Editor → Except Failure α} {g : α → Edit β} {Q : β → Editor → Prop}
    {R : α → Prop} (hfail : ∀ e, P e → F e) (hR : ∀ e a, P e → f e = .ok a → R a)
    (hg : ∀ a, R a → Triple P (g a) Q F) : Triple P (Edit.view f >>= g) Q F :=
  Triple.bind_seen hfail fun a =>
    (Triple.of_fact (hg a)).pre_mono fun e he => ⟨he.1, hR e a he.1 he.2⟩

/-- What is known of all that passes a check is known of what was checked. -/
theorem Triple.bind_checked {c : Check α} {g : α → Edit β} {Q : β → Editor → Prop} {R : α → Prop}
    (hissued : ∀ e n, P e → P { e with issued := n }) (hfail : ∀ e, P e → F e)
    (hR : ∀ n a, (c.run n).1 = .ok a → R a) (hg : ∀ a, R a → Triple P (g a) Q F) :
    Triple P (Edit.check c >>= g) Q F :=
  Triple.bind (R := fun a e => P e ∧ R a)
    (Triple.check (fun e a n he hrun => ⟨hissued e n he, hR _ a hrun⟩)
      fun e n he => hfail _ (hissued e n he))
    fun a => Triple.of_fact (hg a)

/-! ## What is kept -/

variable {I : Editor → Prop}

theorem Keeps.pure (a : α) : Keeps I (Pure.pure a : Edit α) := Triple.pure a fun _ => id

theorem Keeps.bind {f : α → Edit β} (hm : Keeps I m) (hf : ∀ a, Keeps I (f a)) :
    Keeps I (m >>= f) :=
  Triple.bind hm hf

theorem Keeps.view (f : Editor → Except Failure α) : Keeps I (Edit.view f) :=
  Triple.view (fun _ _ he _ => he) fun _ _ he _ => he

theorem Keeps.ask (effects : List Editor.Effect) : Keeps I (Edit.ask effects) := fun _ ht => ht

theorem Keeps.fail (f : Failure) : Keeps I (Edit.fail f : Edit α) := Triple.fail f fun _ => id

theorem Keeps.check (c : Check α) (h : ∀ e n, I e → I { e with issued := n }) :
    Keeps I (Edit.check c) :=
  Triple.check (fun e _ n he _ => h e n he) h

/-! ## Steps that change nothing -/

/-- Whether an operation changes nothing but the ids issued, also when it fails. -/
def Idle (m : Edit α) : Prop := ∀ t, ∃ n, (m t).2 = t.issue n

theorem Idle.pure (a : α) : Idle (Pure.pure a : Edit α) := fun t => ⟨t.editor.issued, rfl⟩

theorem Idle.view (g : Editor → Except Failure α) : Idle (Edit.view g) :=
  fun t => ⟨t.editor.issued, rfl⟩

theorem Idle.check (c : Check α) : Idle (Edit.check c) := fun _ => ⟨_, rfl⟩

theorem Idle.bind {m : Edit α} {f : α → Edit β} (hm : Idle m) (hf : ∀ a, Idle (f a)) :
    Idle (m >>= f) := by
  intro t
  show ∃ n, (ExceptT.bindCont f (m t).1 (m t).2 : Except Failure β × Editor.Trace).2 = t.issue n
  obtain ⟨n, hn⟩ := hm t
  cases hout : m t with
  | mk r u =>
      rw [hout] at hn
      cases r with
      | error x => exact ⟨n, hn⟩
      | ok a =>
          obtain rfl : u = t.issue n := hn
          exact hf a (t.issue n)

/-- What does not depend on the ids issued is kept. -/
theorem Idle.keeps (hm : Idle m) (h : ∀ e n, I e → I { e with issued := n }) : Keeps I m := by
  intro t ht
  obtain ⟨n, hn⟩ := hm t
  generalize m t = out at hn ⊢
  obtain ⟨r, u⟩ := out
  obtain rfl : u = t.issue n := hn
  cases r with
  | ok a => exact h t.editor n ht
  | error f => exact h t.editor n ht

end Retouch.Edit

namespace Retouch.Editor

open Edit

variable {I : Editor → Prop}

/-- Telling observers changes nothing. -/
theorem keeps_announce : Keeps I announce := by
  refine (Keeps.view _).bind fun listening => ?_
  cases listening with
  | false => exact Keeps.pure ()
  | true => exact (Keeps.view _).bind fun s => Keeps.ask _

/-- What follows a change changes nothing more. -/
theorem keeps_changed : Keeps I changed :=
  keeps_announce.bind fun _ => Keeps.ask _

end Retouch.Editor
