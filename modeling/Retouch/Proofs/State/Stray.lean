/-
  Documents that end their reading.

  A check notes what is wrong with a document and goes on.  A few values are not noted: a rotation
  that is a list, an object or an infinity, and the edges of an old crop between which there is no
  difference, end the check at once with a failure that is none of a document (`Failure.IsStray`).
  What the check of a tree does is told by where such a rotation is in it (`Entries.Stops`): there
  it ends (`State.breaks_check`), and everywhere else it goes on, whatever the values are.
-/
import Retouch.Proofs.State.ReadBack

namespace Retouch

/-- Whether a failure is none of a document: an operation on a value of a kind that does not have
    it, or a number that is out of reach of the arithmetic. -/
def Failure.IsStray (f : Failure) : Prop :=
  f = .wrongType ∨ f = .arithmetic .infinite ∨ f = .arithmetic .tooLarge

/-- Whether a computation ends in a stray failure where `P` is so, and elsewhere `Q` is. -/
def StraysIf {α : Type} (x : Except Failure α) (P Q : Prop) : Prop :=
  P ∧ (∃ f, x = .error f ∧ f.IsStray) ∨ ¬ P ∧ Q

/-- Whether a computation ends in a stray failure where `P` is so, and has a result elsewhere. -/
abbrev EndsIf {α : Type} (x : Except Failure α) (P : Prop) : Prop := StraysIf x P (∃ a, x = .ok a)

/-! ## Checks that end -/

namespace Check

variable {α β : Type} {P Q : Prop} {c : Check α}

/-- Whether a check ends where something is so and goes on elsewhere, however far the reading
    is. -/
def Breaks (c : Check α) (P : Prop) : Prop := ∀ p, EndsIf (c p).1 P

/-- Whether a check always goes on. -/
abbrev Steady (c : Check α) : Prop := c.Breaks False

theorem Breaks.congr (hc : c.Breaks P) (h : P ↔ Q) : c.Breaks Q := by
  rwa [← propext h]

theorem Steady.pure (a : α) : Steady (Pure.pure a : Check α) := fun _ => .inr ⟨id, a, rfl⟩

theorem Steady.note (kind : Problem.Kind) (a : α) : Steady (Check.note kind a) :=
  fun _ => .inr ⟨id, a, rfl⟩

theorem Steady.freshId : Steady Check.freshId := fun _ => .inr ⟨id, _, rfl⟩

theorem Breaks.throw {f : Failure} (hf : f.IsStray) :
    (MonadExcept.throw f : Check α).Breaks True :=
  fun _ => .inl ⟨trivial, f, rfl, hf⟩

theorem Breaks.within (hc : c.Breaks P) (step : Step) : (Check.within step c).Breaks P :=
  fun p => hc { p with problems := [] }

/-- A check in two parts ends where the first part does, or the second. -/
theorem Breaks.bind {f : α → Check β} (hc : c.Breaks P) (hf : ∀ a, (f a).Breaks Q) :
    (c >>= f).Breaks (P ∨ Q) := by
  intro p
  have hrun : (c >>= f) p = ExceptT.bindCont f (c p).1 (c p).2 := rfl
  rcases hc p with ⟨hP, x, hx, hstray⟩ | ⟨hP, a, ha⟩
  · rw [hrun, hx]
    exact .inl ⟨.inl hP, x, rfl, hstray⟩
  · rw [hrun, ha]
    rcases hf a (c p).2 with ⟨hQ, hfail⟩ | ⟨hQ, hok⟩
    · exact .inl ⟨.inr hQ, hfail⟩
    · exact .inr ⟨not_or.mpr ⟨hP, hQ⟩, hok⟩

/-- Behind a part that goes on only the rest matters. -/
theorem Steady.bind {f : α → Check β} (hc : Steady c) (hf : ∀ a, (f a).Breaks Q) :
    (c >>= f).Breaks Q :=
  (Breaks.bind hc hf).congr (by rw [false_or])

/-- In front of a rest that goes on only the first part matters. -/
theorem Breaks.bind_steady {f : α → Check β} (hc : c.Breaks P) (hf : ∀ a, Steady (f a)) :
    (c >>= f).Breaks P :=
  (Breaks.bind hc hf).congr (by rw [or_false])

theorem Breaks.map {f : α → β} (hc : c.Breaks P) : (f <$> c).Breaks P := by
  rw [← bind_pure_comp]
  exact hc.bind_steady fun a => Steady.pure (f a)

/-- A run ends where the check does; elsewhere it has a result or tells the problems. -/
theorem Breaks.of_run (hc : c.Breaks P) (n : Nat) :
    P ∧ (∃ f m, c.run n = (.error f, m) ∧ f.IsStray) ∨
      ¬ P ∧ ((∃ a m, c.run n = (.ok a, m)) ∨
        ∃ problems m, c.run n = (.error (.invalid problems), m)) := by
  unfold run
  cases hrun : c ⟨n, []⟩ with
  | mk r p =>
      rcases hc ⟨n, []⟩ with ⟨hP, f, hf, hstray⟩ | ⟨hP, a, ha⟩
      · rw [hrun] at hf
        obtain rfl : r = .error f := hf
        exact .inl ⟨hP, f, p.issued, rfl, hstray⟩
      · rw [hrun] at ha
        obtain rfl : r = .ok a := ha
        refine .inr ⟨hP, ?_⟩
        by_cases hempty : p.problems.isEmpty
        · exact .inl ⟨a, p.issued, Prod.ext (if_pos hempty) rfl⟩
        · exact .inr ⟨p.problems, p.issued, Prod.ext (if_neg hempty) rfl⟩

end Check

open Check (Steady Breaks)

/-! ## Conversions -/

section

variable (v : Value)

theorem Convert.steady_text : Steady (Convert.text v) := by
  unfold Convert.text
  split
  · exact .pure _
  · exact .note _ _
  · exact .note _ _

theorem Convert.steady_int : Steady (Convert.int v) := by
  unfold Convert.int
  split
  · exact .pure _
  · exact .pure _
  · split
    · exact .pure _
    · exact .note _ _
  · split
    · exact .note _ _
    · split
      · exact .pure _
      · exact .note _ _
  · exact .note _ _
  · exact .note _ _

theorem Convert.steady_double : Steady (Convert.double v) := by
  unfold Convert.double
  split
  · exact .pure _
  · split
    · exact .pure _
    · exact .note _ _
  · exact .pure _
  · split
    · exact .pure _
    · exact .note _ _
  · exact .note _ _
  · exact .note _ _

theorem Convert.steady_truth : Steady (Convert.truth v) := by
  have hwhole : ∀ n, Steady (Convert.truth.ofWhole n) := by
    intro n
    unfold Convert.truth.ofWhole
    split
    · exact .pure _
    · split
      · exact .pure _
      · exact .note _ _
  unfold Convert.truth
  split
  · exact .pure _
  · exact hwhole _
  · split
    · exact hwhole _
    · exact .note _ _
  · split
    · exact .pure _
    · exact .note _ _
  · exact .note _ _
  · exact .note _ _

theorem Convert.steady_intBetween (low high : Int) : Steady (Convert.intBetween low high v) := by
  refine (Convert.steady_int v).bind fun n => ?_
  split
  · exact Steady.note _ _
  · split
    · exact Steady.note _ _
    · exact Steady.pure _

theorem Blend.steady_read : Steady (Blend.read v) := by
  unfold Blend.read
  split
  · split
    · exact .pure _
    · exact .note _ _
  · exact .note _ _

theorem Position.steady_check : Steady (Position.check v) := by
  unfold Position.check
  split
  · exact .pure _
  · exact .note _ _

end

/-- Whether a value cannot even be tried as a rotation: a list, an object or an infinity. -/
def Value.StopsTurn : Value → Prop
  | .list _ | .object _ => True
  | .float x => Number.truncOf x = .error .infinite
  | _ => False

theorem truncOf_error {x : Float} {fault : Number.Fault} (h : Number.truncOf x = .error fault) :
    fault = .notANumber ∨ fault = .infinite := by
  unfold Number.truncOf at h
  split at h
  · exact .inl (Except.error.inj h).symm
  · exact .inr (Except.error.inj h).symm
  · cases h

/-- A rotation is folded or refused, unless it cannot be tried. -/
theorem Convert.breaks_rotation {v : Value} (hv : v ≠ .null) :
    (Convert.rotation v).Breaks v.StopsTurn := by
  have hfold : ∀ o, Steady (Convert.rotation.fold o) := by
    intro o
    unfold Convert.rotation.fold
    split
    · exact .pure _
    · exact .note _ _
  cases v with
  | null => exact absurd rfl hv
  | bool b => exact hfold _
  | int n => exact hfold _
  | text s => exact hfold _
  | rawText codes => exact Steady.note _ _
  | list vs => exact .throw (.inl rfl)
  | object es => exact .throw (.inl rfl)
  | float x =>
      unfold Convert.rotation Value.StopsTurn
      simp only
      split
      · rename_i n hn
        exact (hfold _).congr (by rw [hn]; simp)
      · rename_i hnan
        exact (Steady.note _ _).congr (by rw [hnan]; simp)
      · rename_i fault hne hfault
        rcases truncOf_error hfault with rfl | rfl
        · exact (hne rfl).elim
        · exact (Breaks.throw (.inr (.inl rfl))).congr (by rw [hfault]; simp)

/-! ## Fields -/

section

variable {α : Type} {es : Entries} {c : Value → Check α}

/-- An optional field ends the check where its value does; null is no value. -/
theorem breaks_optionalField {S : Value → Prop} {f : Field}
    (hc : ∀ v, v ≠ .null → (c v).Breaks (S v)) (hnull : ¬ S .null) :
    (optionalField es f c).Breaks
      (∃ v, (es.spelled? f.key f.spelled).map (·.2) = some v ∧ S v) := by
  unfold optionalField
  split
  · rename_i hnone
    exact (Steady.pure _).congr (by simp [hnone])
  · rename_i hsome
    exact (Steady.pure _).congr (by simp [hsome, hnull])
  · rename_i key v hv hsome
    exact ((hc v hv).map.within _).congr (by simp [hsome])

theorem steady_optionalField {f : Field} (hc : ∀ v, Steady (c v)) :
    Steady (optionalField es f c) :=
  (breaks_optionalField (S := fun _ => False) (fun v _ => hc v) id).congr (by simp)

theorem steady_required [Inhabited α] {key : String} (hc : ∀ v, Steady (c v)) :
    Steady (Convert.required es key c) := by
  unfold Convert.required
  split
  · exact (hc _).within _
  · exact (Steady.note _ _).within _

theorem steady_requiredField [Inhabited α] {first second : String} (hc : ∀ v, Steady (c v)) :
    Steady (requiredField es first second c) := by
  unfold requiredField
  split
  · exact (hc _).within _
  · exact (Steady.note _ _).within _

theorem steady_fieldOr {first second : String} {default : α} (hc : ∀ v, Steady (c v)) :
    Steady (fieldOr es first second default c) := by
  unfold fieldOr
  split
  · exact (hc _).within _
  · exact .pure _

end

theorem Size.steady_read (v : Value) : Steady (Size.read v) := by
  unfold Size.read
  split
  · refine (steady_required Convert.steady_int).bind fun _ => ?_
    refine (steady_required Convert.steady_int).bind fun _ => ?_
    exact Steady.pure _
  · exact .note _ _

theorem LayerProps.steady_read (es : Entries) : Steady (LayerProps.read es) := by
  unfold LayerProps.read
  extract_lets rest
  have hrest : ∀ id, Steady (rest id) := by
    intro id
    refine (steady_requiredField Convert.steady_text).bind fun _ => ?_
    refine (steady_requiredField Size.steady_read).bind fun _ => ?_
    refine (steady_fieldOr Position.steady_check).bind fun _ => ?_
    refine (steady_fieldOr Position.steady_check).bind fun _ => ?_
    refine (steady_fieldOr fun v => Convert.steady_intBetween v 0 100).bind fun _ => ?_
    refine (steady_fieldOr Blend.steady_read).bind fun _ => ?_
    refine (steady_fieldOr Convert.steady_truth).bind fun _ => ?_
    refine (steady_fieldOr Convert.steady_text).bind fun _ => ?_
    exact Steady.pure _
  split
  · exact Steady.bind ((Convert.steady_text _).within _) hrest
  · exact Steady.freshId.bind hrest

/-- Whether the rotation that entries give cannot be tried. -/
def Entries.StopTurn (es : Entries) : Prop :=
  ∃ v, es.lookup "rotation" = some v ∧ v.StopsTurn

theorem breaks_optionalField_rotation (es : Entries) :
    (optionalField es .rotation Convert.rotation).Breaks es.StopTurn := by
  have hlookup : (es.spelled? Field.rotation.key Field.rotation.spelled).map (·.2) =
      es.lookup "rotation" := by
    unfold Entries.spelled?
    rw [show Field.rotation.key = "rotation" from rfl,
      show Field.rotation.spelled = "rotation" from rfl]
    cases es.lookup "rotation" with
    | none => rfl
    | some v => rfl
  have hfield := @breaks_optionalField _ es Convert.rotation Value.StopsTurn .rotation
    (fun v hv => Convert.breaks_rotation hv) id
  rwa [hlookup] at hfield

/-- Of all settings only the rotation can end the check. -/
theorem Params.breaks_read (inLayer : Bool) (es : Entries) :
    (Params.read inLayer es).Breaks es.StopTurn := by
  unfold Params.read
  extract_lets afterPath
  have hafterPath : ∀ imagePath, (afterPath imagePath).Breaks es.StopTurn := by
    intro imagePath
    unfold afterPath
    extract_lets afterSize
    have hafterSize : ∀ originalDimensions, (afterSize originalDimensions).Breaks es.StopTurn := by
      intro originalDimensions
      unfold afterSize
      -- What is read before the rotation goes on, and so does what is read after it.  Conversions
      -- are told apart by their names alone, without opening them.
      repeat first
        | with_reducible refine (steady_optionalField Convert.steady_int).bind fun _ => ?_
        | with_reducible refine (steady_optionalField Convert.steady_truth).bind fun _ => ?_
        | with_reducible refine (steady_optionalField Convert.steady_double).bind fun _ => ?_
        | with_reducible refine (steady_optionalField Convert.steady_text).bind fun _ => ?_
      refine (breaks_optionalField_rotation es).bind_steady fun _ => ?_
      repeat first
        | with_reducible refine (steady_optionalField Convert.steady_int).bind fun _ => ?_
        | with_reducible refine (steady_optionalField Convert.steady_truth).bind fun _ => ?_
        | with_reducible refine (steady_optionalField Convert.steady_double).bind fun _ => ?_
        | with_reducible refine (steady_optionalField Convert.steady_text).bind fun _ => ?_
      exact Steady.pure _
    split
    · exact (Steady.pure none).bind hafterSize
    · exact (steady_optionalField Size.steady_read).bind hafterSize
  split
  · exact (Steady.pure none).bind hafterPath
  · exact (steady_optionalField Convert.steady_text).bind hafterPath

/-! ## The tree -/

/-- Whether entries of a state have a rotation that cannot be tried, or the settings of a layer do,
at any depth; only layers that are `seen` count. -/
inductive Entries.Stops (seen : Value → Prop) : Entries → Prop where
  | turn {es : Entries} (turn : es.StopTurn) : Stops seen es
  | layer {es ts fs : Entries} {vs : List Value} (layers : es.lookup "layers" = some (.list vs))
      (item : .object ts ∈ vs) (visible : seen (.object ts))
      (settings : ts.lookup "transforms" = some (.object fs)) (inside : Stops seen fs) :
      Stops seen es

/-- All layers, whatever they are. -/
def anyLayer (_ : Value) : Prop := True

/-- Whether a value is a layer with such a rotation in its settings. -/
def Value.LayerStops (seen : Value → Prop) (v : Value) : Prop :=
  ∃ ts fs : Entries, v = .object ts ∧ seen v ∧ ts.lookup "transforms" = some (.object fs) ∧
    Entries.Stops seen fs

/-- Whether one of the layers that entries of a state give is such a layer. -/
def Entries.LayersStop (seen : Value → Prop) (es : Entries) : Prop :=
  ∃ vs, es.lookup "layers" = some (.list vs) ∧ ∃ l ∈ vs, l.LayerStops seen

theorem Entries.stops_iff {seen : Value → Prop} {es : Entries} :
    es.Stops seen ↔ es.StopTurn ∨ es.LayersStop seen := by
  constructor
  · intro h
    cases h with
    | turn turn => exact .inl turn
    | layer layers item visible settings inside =>
        exact .inr ⟨_, layers, _, item, _, _, rfl, visible, settings, inside⟩
  · rintro (turn | ⟨vs, layers, l, item, ts, fs, rfl, visible, settings, inside⟩)
    · exact .turn turn
    · exact .layer layers item visible settings inside

/-- Entries that give the same rotation and the same layers stop alike. -/
theorem Entries.stops_congr {seen : Value → Prop} {es fs : Entries}
    (hturn : es.lookup "rotation" = fs.lookup "rotation")
    (hlayers : es.lookup "layers" = fs.lookup "layers") : es.Stops seen ↔ fs.Stops seen := by
  rw [stops_iff, stops_iff, StopTurn, StopTurn, LayersStop, LayersStop, hturn, hlayers]

mutual

/-- The check of a tree ends where a rotation in it cannot be tried, and nowhere else. -/
theorem State.breaks_check (v : Value) (inLayer : Bool) :
    (State.check inLayer v).Breaks (∃ es, v = .object es ∧ Entries.Stops anyLayer es) := by
  cases v with
  | object es =>
      have hlayers := breaks_checkLayersIn es
      rw [State.check]
      refine ((Params.breaks_read inLayer es).bind fun p =>
        hlayers.bind_steady fun layers => Steady.pure _).congr ?_
      rw [← Entries.stops_iff]
      simp
  | _ =>
      rw [State.check]
      · exact (Steady.note _ _).congr (by simp)
      · simp

theorem breaks_checkLayersIn (es : List (String × Value)) :
    (checkLayersIn es).Breaks (Entries.LayersStop anyLayer es) := by
  cases es with
  | nil =>
      rw [checkLayersIn]
      exact (Steady.pure _).congr (by simp [Entries.LayersStop, Entries.lookup])
  | cons e es =>
      obtain ⟨k, v⟩ := e
      have hhere := breaks_checkLayers v
      have hrest := breaks_checkLayersIn es
      unfold Entries.LayersStop at hrest ⊢
      rw [checkLayersIn, Entries.lookup]
      split
      · exact (hhere.within _).congr (by simp)
      · exact hrest

theorem breaks_checkLayers (v : Value) :
    (checkLayers v).Breaks (∃ vs, v = .list vs ∧ ∃ l ∈ vs, l.LayerStops anyLayer) := by
  cases v with
  | null =>
      rw [checkLayers]
      exact (Steady.pure _).congr (by simp)
  | list vs =>
      have hitems := breaks_checkItems vs 0
      rw [checkLayers]
      exact hitems.map.congr (by simp)
  | _ =>
      rw [checkLayers]
      · exact (Steady.note _ _).congr (by simp)
      · simp
      · simp

theorem breaks_checkItems (vs : List Value) (n : Nat) :
    (checkItems n vs).Breaks (∃ l ∈ vs, l.LayerStops anyLayer) := by
  cases vs with
  | nil =>
      rw [checkItems]
      exact (Steady.pure _).congr (by simp)
  | cons v vs =>
      have hlayer := Layer.breaks_check v
      have hrest := breaks_checkItems vs (n + 1)
      rw [checkItems]
      refine ((hlayer.within _).bind fun l => hrest.bind_steady fun ls => Steady.pure _).congr ?_
      simp

theorem Layer.breaks_check (v : Value) : (Layer.check v).Breaks (v.LayerStops anyLayer) := by
  cases v with
  | object es =>
      have htransforms := breaks_checkTransformsIn es
      rw [Layer.check]
      refine ((LayerProps.steady_read es).bind fun p =>
        htransforms.bind_steady fun transforms => Steady.pure _).congr ?_
      simp [Value.LayerStops, anyLayer]
  | _ =>
      rw [Layer.check]
      · exact (Steady.note _ _).congr (by simp [Value.LayerStops])
      · simp

theorem breaks_checkTransformsIn (es : List (String × Value)) :
    (checkTransformsIn es).Breaks
      (∃ fs, Entries.lookup "transforms" es = some (.object fs) ∧ Entries.Stops anyLayer fs) := by
  cases es with
  | nil =>
      rw [checkTransformsIn]
      exact (Steady.pure _).congr (by simp [Entries.lookup])
  | cons e es =>
      obtain ⟨k, v⟩ := e
      have hhere := breaks_checkTransforms v
      have hrest := breaks_checkTransformsIn es
      rw [checkTransformsIn, Entries.lookup]
      split
      · exact (hhere.within _).congr (by simp)
      · exact hrest

theorem breaks_checkTransforms (v : Value) :
    (checkTransforms v).Breaks (∃ fs, v = .object fs ∧ Entries.Stops anyLayer fs) := by
  cases v with
  | null =>
      rw [checkTransforms]
      exact (Steady.pure _).congr (by simp)
  | object es =>
      have hstate := State.breaks_check (.object es) true
      rw [checkTransforms]
      exact hstate.map
  | _ =>
      rw [checkTransforms]
      · exact (Steady.note _ _).congr (by simp)
      · simp
      · simp

end

/-! ## Old crops -/

/-- Whether a whole number exceeds every double. -/
def Number.OutOfReach : Number → Prop
  | .int n => Number.ofWhole n = .error .tooLarge
  | .float _ => False

/-- Whether two numbers have no difference: one is a double and the other exceeds every double. -/
def Number.Apart : Number → Number → Prop
  | .int _, .int _ => False
  | m, n => m.OutOfReach ∨ n.OutOfReach

/-- Whether two values have no difference: one of them is no number, or they are numbers apart. -/
def Value.Apart (a b : Value) : Prop :=
  match a.number?, b.number? with
  | some m, some n => m.Apart n
  | _, _ => True

theorem Number.toDouble_cases (a : Number) :
    a.OutOfReach ∧ a.toDouble = .error .tooLarge ∨ ¬ a.OutOfReach ∧ ∃ x, a.toDouble = .ok x := by
  cases a with
  | float x => exact .inr ⟨id, x, rfl⟩
  | int n =>
      show ofWhole n = .error .tooLarge ∧ ofWhole n = .error .tooLarge ∨
        ¬ ofWhole n = .error .tooLarge ∧ ∃ x, ofWhole n = .ok x
      unfold ofWhole
      simp only
      split
      · exact .inr ⟨(fun h => nomatch h), _, rfl⟩
      · exact .inl ⟨rfl, rfl⟩

/-- Numbers that are not both whole are subtracted as doubles. -/
theorem Number.sub_doubles (m n : Number) :
    (m.OutOfReach ∨ n.OutOfReach) ∧
        (do return .float ((← m.toDouble) - (← n.toDouble)) : Except Fault Number) =
          .error .tooLarge ∨
      ¬ (m.OutOfReach ∨ n.OutOfReach) ∧ ∃ d,
        (do return .float ((← m.toDouble) - (← n.toDouble)) : Except Fault Number) = .ok d := by
  rcases m.toDouble_cases with ⟨hm, hfail⟩ | ⟨hm, x, hx⟩
  · exact .inl ⟨.inl hm, by rw [hfail]; rfl⟩
  · rcases n.toDouble_cases with ⟨hn, hfail⟩ | ⟨hn, y, hy⟩
    · exact .inl ⟨.inr hn, by rw [hx, hfail]; rfl⟩
    · exact .inr ⟨not_or.mpr ⟨hm, hn⟩, .float (x - y), by rw [hx, hy]; rfl⟩

theorem Number.sub_cases (m n : Number) :
    m.Apart n ∧ m.sub n = .error .tooLarge ∨ ¬ m.Apart n ∧ ∃ d, m.sub n = .ok d := by
  cases m with
  | float x => exact sub_doubles (.float x) n
  | int a =>
      cases n with
      | float y => exact sub_doubles (.int a) (.float y)
      | int b => exact .inr ⟨id, .int (a - b), rfl⟩

/-- A difference is there, or missing with a stray failure. -/
theorem Value.sub_cases (a b : Value) : EndsIf (a.sub b) (a.Apart b) := by
  unfold Apart sub
  cases a.number? with
  | none => exact .inl ⟨trivial, .wrongType, rfl, .inl rfl⟩
  | some m =>
      cases b.number? with
      | none => exact .inl ⟨trivial, .wrongType, rfl, .inl rfl⟩
      | some n =>
          rcases m.sub_cases n with ⟨hapart, hfail⟩ | ⟨hapart, d, hd⟩
          · refine .inl ⟨hapart, .arithmetic .tooLarge, ?_, .inr (.inr rfl)⟩
            simp only [hfail]
            rfl
          · refine .inr ⟨hapart, .ofNumber d, ?_⟩
            simp only [hd]
            rfl

namespace Entries

/-- Whether entries have an edge in place of an extent, and no extent comes of it. -/
def EdgeApart (far near extent : String) (es : Entries) : Prop :=
  ∃ f n, es.lookup far = some f ∧ es.lookup near = some n ∧ es.lookup extent = none ∧ f.Apart n

/-- Whether that is so on an axis of an old crop. -/
def CropApart (es : Entries) : Prop :=
  es.EdgeApart "cropRight" "cropLeft" "cropWidth" ∨ es.EdgeApart "cropBottom" "cropTop" "cropHeight"

/-- An edge is replaced, and nothing else changes, unless no extent comes of it. -/
theorem edgeToExtent_cases (far near extent : String) (es : Entries) :
    StraysIf (es.edgeToExtent far near extent) (es.EdgeApart far near extent)
      (∃ fs, es.edgeToExtent far near extent = .ok fs ∧
        ∀ key, key ≠ far → key ≠ extent → lookup key fs = lookup key es) := by
  have hkept : ¬ es.EdgeApart far near extent → es.edgeToExtent far near extent = .ok es →
      ¬ es.EdgeApart far near extent ∧
        ∃ fs, es.edgeToExtent far near extent = .ok fs ∧
          ∀ key, key ≠ far → key ≠ extent → lookup key fs = lookup key es :=
    fun hapart hok => ⟨hapart, es, hok, fun _ _ _ => rfl⟩
  cases hfar : es.lookup far with
  | none =>
      refine .inr (hkept ?_ (edgeToExtent_of_lookup_none hfar))
      rintro ⟨f, n, hf, -⟩
      cases hfar.symm.trans hf
  | some f =>
      cases hnear : es.lookup near with
      | none =>
          refine .inr (hkept ?_ (by rw [edgeToExtent, hfar, hnear]))
          rintro ⟨f, n, -, hn, -⟩
          cases hnear.symm.trans hn
      | some n =>
          cases hextent : es.lookup extent with
          | some w =>
              refine .inr (hkept ?_ (by rw [edgeToExtent, hfar, hnear, hextent]))
              rintro ⟨f, n, -, -, hw, -⟩
              cases hextent.symm.trans hw
          | none =>
              have hiff : es.EdgeApart far near extent ↔ f.Apart n := by
                unfold EdgeApart
                rw [hfar, hnear, hextent]
                simp
              rw [edgeToExtent, hfar, hnear, hextent, hiff]
              rcases f.sub_cases n with ⟨hapart, x, hx, hstray⟩ | ⟨hapart, v, hv⟩
              · exact .inl ⟨hapart, x, by simp only [hx]; rfl, hstray⟩
              · refine .inr ⟨hapart, (es.erase far).put extent v, by simp only [hv]; rfl, ?_⟩
                intro key hfar hextent
                rw [lookup_put_of_ne hextent, lookup_erase_of_ne hfar]

/-- Entries are brought to the present form, and settings that are no edges stay, unless no crop
    comes of an old one. -/
theorem migrate_cases (es : Entries) :
    StraysIf es.migrate es.CropApart
      (∃ fs, es.migrate = .ok fs ∧ ∀ key,
        key ≠ "cropRight" → key ≠ "cropWidth" → key ≠ "cropBottom" → key ≠ "cropHeight" →
          lookup key fs = lookup key es) := by
  unfold migrate CropApart
  rcases edgeToExtent_cases "cropRight" "cropLeft" "cropWidth" es with
    ⟨hapart, x, hx, hstray⟩ | ⟨hacross, fs, hfs, hkept⟩
  · exact .inl ⟨.inl hapart, x, by rw [hx]; rfl, hstray⟩
  · -- The second axis is as it was.
    have hiff : fs.EdgeApart "cropBottom" "cropTop" "cropHeight" ↔
        es.EdgeApart "cropBottom" "cropTop" "cropHeight" := by
      unfold EdgeApart
      rw [hkept _ (by decide) (by decide), hkept _ (by decide) (by decide),
        hkept _ (by decide) (by decide)]
    rw [hfs]
    rcases edgeToExtent_cases "cropBottom" "cropTop" "cropHeight" fs with
      ⟨hapart, x, hx, hstray⟩ | ⟨hdown, gs, hgs, hkept'⟩
    · exact .inl ⟨.inr (hiff.mp hapart), x, hx, hstray⟩
    · refine .inr ⟨not_or.mpr ⟨hacross, fun h => hdown (hiff.mpr h)⟩, gs, hgs, ?_⟩
      intro key hright hwidth hbottom hheight
      rw [hkept' key hbottom hheight, hkept key hright hwidth]

end Entries

/-- Reading a state from entries of any version ends where no crop comes of an old one, or a
    rotation cannot be tried. -/
theorem State.breaks_ofEntries (es : Entries) :
    (State.ofEntries es).Breaks (es.CropApart ∨ es.Stops anyLayer) := by
  unfold State.ofEntries
  rcases es.migrate_cases with ⟨hapart, x, hx, hstray⟩ | ⟨hapart, fs, hfs, hkept⟩
  · rw [hx]
    refine Breaks.congr (P := True) ?_ (by simp [hapart])
    exact fun p => .inl ⟨trivial, x, rfl, hstray⟩
  · have hstops : fs.Stops anyLayer ↔ es.Stops anyLayer :=
      Entries.stops_congr (hkept _ (by decide) (by decide) (by decide) (by decide))
        (hkept _ (by decide) (by decide) (by decide) (by decide))
    rw [hfs]
    refine (State.breaks_check (.object fs) false).congr ?_
    simp [hapart, hstops]

end Retouch
