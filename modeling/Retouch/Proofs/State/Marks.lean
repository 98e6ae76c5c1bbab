/-
  Settings of layers as documents give them.

  Reading drops the image that the settings of a layer name, so no layer of a tree that is read
  names one.  The mark of the crop mode is read like any other setting: a layer has it only if its
  document names it (`Layer.clean_of_check`).  What is written of layers without the mark does not
  name it (`Layer.not_marksLayer_write`), so changes keep a tree without it that do not bring it in
  themselves (`State.clean_of_merged`, `Layer.clean_of_merged`).
-/
import Retouch.Proofs.State.Bears
import Retouch.Proofs.State.Valid
import Retouch.Proofs.Value.Distinct

namespace Retouch

open Check (Accepts Yields)

/-! ## Entries and changes -/

namespace Entries

variable {es : Entries} {key : String} {e : String × Value}

theorem mem_of_mem_erase (h : e ∈ es.erase key) : e ∈ es := by
  induction es with
  | nil => cases h
  | cons x es ih =>
      obtain ⟨k, w⟩ := x
      rw [erase] at h
      split at h
      · exact List.mem_cons_of_mem _ h
      · rcases List.mem_cons.mp h with rfl | htail
        · exact List.mem_cons_self
        · exact List.mem_cons_of_mem _ (ih htail)

theorem mem_of_lookup {v : Value} (h : es.lookup key = some v) : (key, v) ∈ es := by
  induction es with
  | nil => cases h
  | cons x es ih =>
      obtain ⟨k, w⟩ := x
      rw [lookup] at h
      split at h
      · rename_i hk
        cases h
        exact hk ▸ List.mem_cons_self
      · exact List.mem_cons_of_mem _ (ih h)

end Entries

theorem Entries.mem_edgeToExtent {far near extent : String} {es out : Entries}
    (h : es.edgeToExtent far near extent = .ok out) {e : String × Value} (he : e ∈ out) :
    e ∈ es ∨ e.1 = extent := by
  unfold edgeToExtent at h
  split at h
  · obtain ⟨v, -, h⟩ := of_bind_eq_ok h
    cases h
    rcases mem_put he with rfl | he
    · exact .inr rfl
    · exact .inl (mem_of_mem_erase he)
  · cases h
    exact .inl he

/-- Bringing entries to the present form only adds an extent of a crop. -/
theorem Entries.mem_migrate {es out : Entries} (h : es.migrate = .ok out) {e : String × Value}
    (he : e ∈ out) : e ∈ es ∨ e.1 = "cropWidth" ∨ e.1 = "cropHeight" := by
  obtain ⟨mid, hmid, h⟩ := of_bind_eq_ok h
  rcases mem_edgeToExtent h he with he | he
  · exact (mem_edgeToExtent hmid he).imp_right .inl
  · exact .inr (.inr he)

theorem State.mem_entries {name : Field → String} {s : State} {e : String × Value}
    (h : e ∈ s.entries name) : ∃ f, name f = e.1 ∧ s.get f = some e.2 := by
  obtain ⟨f, -, hf⟩ := List.mem_filterMap.mp h
  obtain ⟨v, hv, rfl⟩ := Option.map_eq_some_iff.mp hf
  exact ⟨f, rfl, hv⟩

namespace Changes

theorem mem_apply {cs : Changes} {es : Entries} {e : String × Value} (h : e ∈ cs.apply es) :
    e ∈ es ∨ ∃ c ∈ cs, c.1.spelled = e.1 ∧ c.2 = e.2 := by
  refine mem_foldl (R := fun c e => c.1.spelled = e.1 ∧ c.2 = e.2) (fun es c e h => ?_) h
  obtain ⟨f, v⟩ := c
  simp only at h
  split at h
  · exact .inl (Entries.mem_of_mem_erase h)
  · rcases Entries.mem_put h with rfl | h
    · exact .inr ⟨rfl, rfl⟩
    · exact .inl h

/-- Changes that entries give are among these. -/
theorem mem_ofEntries {es : Entries} {c : Field × Value} (h : c ∈ ofEntries es) :
    ∃ e ∈ es, Field.ofKey? e.1 = some c.1 ∧ e.2 = c.2 := by
  refine (mem_foldl (R := fun e c => Field.ofKey? e.1 = some c.1 ∧ e.2 = c.2)
    (fun cs e c h => ?_) h).resolve_left List.not_mem_nil
  obtain ⟨k, v⟩ := e
  simp only at h
  split at h
  · rename_i f hf
    rcases mem_put h with rfl | h
    · exact .inr ⟨hf, rfl⟩
    · exact .inl h
  · exact .inl h

end Changes

/-- Entries with layer keys in the second spelling are among those that were given. -/
theorem Entries.mem_layerSpelled {es : Entries} {e : String × Value} (h : e ∈ es.layerSpelled) :
    ∃ d ∈ es, layerSpelled? d.1 = some e.1 ∧ d.2 = e.2 := by
  refine (mem_foldl (R := fun d e => layerSpelled? d.1 = some e.1 ∧ d.2 = e.2)
    (fun es d e h => ?_) h).resolve_left List.not_mem_nil
  obtain ⟨k, v⟩ := d
  simp only at h
  split at h
  · rename_i f hf
    rcases mem_put h with rfl | h
    · exact .inr ⟨hf, rfl⟩
    · exact .inl h
  · exact .inl h

/-! ## The mark in documents -/

/-- Whether entries name a field, in either spelling. -/
def Entries.Names (f : Field) (es : Entries) : Prop := ∃ e ∈ es, Field.ofKey? e.1 = some f

/-- Whether the document of a layer names the mark of the crop mode in the settings of the layer or
of one on top of it. -/
def Value.MarksLayer (v : Value) : Prop := v.HasSettings (Entries.Names .visualCropEnabled)

/-- Whether entries of a state do so for one of its layers. -/
def Entries.MarksLayers (es : Entries) : Prop := es.LayersHave (Entries.Names .visualCropEnabled)

/-- Whether changes do so for one of the layers that they give. -/
def Changes.MarksLayers (cs : Changes) : Prop :=
  ∃ vs l, (Field.layers, .list vs) ∈ cs ∧ l ∈ vs ∧ l.MarksLayer

theorem Entries.MarksLayers.of_mem {es fs : Entries}
    (h : ∀ v, ("layers", v) ∈ es → ("layers", v) ∈ fs) (hes : es.MarksLayers) :
    fs.MarksLayers := by
  obtain ⟨vs, l, hlayers, hl⟩ := hes
  exact ⟨vs, l, h _ hlayers, hl⟩

theorem Value.marksLayer_object {es : Entries} : (Value.object es).MarksLayer ↔
    ∃ ts, ("transforms", .object ts) ∈ es ∧
      (Entries.Names .visualCropEnabled ts ∨ Entries.MarksLayers ts) :=
  Value.hasSettings_object

theorem Entries.marksLayers_of_migrate {es out : Entries} (h : es.migrate = .ok out)
    (hout : out.MarksLayers) : es.MarksLayers := by
  refine hout.of_mem fun v hv => ?_
  rcases mem_migrate h hv with hv | hv | hv
  · exact hv
  · simp at hv
  · simp at hv

theorem Entries.names_of_migrate {f : Field} (hwidth : f ≠ .cropWidth)
    (hheight : f ≠ .cropHeight) {es out : Entries} (h : es.migrate = .ok out)
    (hout : out.Names f) : es.Names f := by
  obtain ⟨e, he, hf⟩ := hout
  rcases mem_migrate h he with he | hk | hk
  · exact ⟨e, he, hf⟩
  · rw [hk, show "cropWidth" = Field.key .cropWidth from rfl, Field.ofKey?_key] at hf
    exact absurd (Option.some.inj hf).symm hwidth
  · rw [hk, show "cropHeight" = Field.key .cropHeight from rfl, Field.ofKey?_key] at hf
    exact absurd (Option.some.inj hf).symm hheight

theorem Field.of_ofKey?_eq_some {k : String} {f : Field} (h : ofKey? k = some f) :
    f.spelled = k ∨ f.key = k := by
  simpa using List.find?_some h

theorem Changes.marksLayers_of_ofEntries {es : Entries} (h : (ofEntries es).MarksLayers) :
    es.MarksLayers := by
  obtain ⟨vs, l, hlayers, hl⟩ := h
  obtain ⟨⟨k, v⟩, he, hk, rfl⟩ := mem_ofEntries hlayers
  obtain rfl : k = "layers" := (Field.of_ofKey?_eq_some hk).elim Eq.symm Eq.symm
  exact ⟨vs, l, he, hl⟩

theorem Changes.marksLayers_of_apply {cs : Changes} {es : Entries}
    (h : (cs.apply es).MarksLayers) : es.MarksLayers ∨ cs.MarksLayers := by
  obtain ⟨vs, l, hlayers, hl⟩ := h
  rcases mem_apply hlayers with he | ⟨⟨f, v⟩, hc, hf, rfl⟩
  · exact .inl ⟨vs, l, he, hl⟩
  · obtain rfl : f = .layers := Field.spelled_inj f .layers hf
    exact .inr ⟨vs, l, hc, hl⟩

/-! ## What is written of trees without the mark -/

section

variable {name : Field → String}

theorem State.names_of_names_entries {s : State} {f : Field}
    (hname : ∀ g, Field.ofKey? (name g) = some g) (h : (s.entries name).Names f) :
    (s.get f).isSome := by
  obtain ⟨e, he, hf⟩ := h
  obtain ⟨g, hg, hv⟩ := State.mem_entries he
  obtain rfl : g = f := Option.some.inj ((hname g).symm.trans (hg ▸ hf))
  exact Option.isSome_of_eq_some hv

theorem State.layers_of_mem_entries {s : State} {v : Value}
    (hname : ∀ f, name f = "layers" → f = .layers) (h : ("layers", v) ∈ s.entries name) :
    ∃ ls ∈ s.layers, v = .list (writeLayers ls) := by
  obtain ⟨f, hf, hv⟩ := State.mem_entries h
  obtain rfl := hname f hf
  obtain ⟨ls, hls, rfl⟩ := Option.map_eq_some_iff.mp hv
  exact ⟨ls, hls, rfl⟩

end

/-- The settings in the document of a layer are those of the layer. -/
theorem Layer.transforms_of_write {l : Layer} {es ts : Entries} (hl : l.write = .object es)
    (hts : ("transforms", .object ts) ∈ es) :
    ∃ s ∈ l.transforms, ts = s.entries Field.key := by
  obtain ⟨p, _ | s⟩ := l
  · rw [Layer.write] at hl
    cases hl
    simp [LayerProps.write] at hts
  · rw [Layer.write] at hl
    cases hl
    have hwrite : Value.object ts = s.write := by simpa [LayerProps.write] using hts
    exact ⟨s, rfl, Value.object.inj (hwrite.trans s.write_eq)⟩

/-- What is written of a layer without the mark does not name it. -/
theorem Layer.not_marksLayer_write {l : Layer} (h : l.Bears (·.visualCropEnabled = none)) :
    ¬ l.write.MarksLayer := by
  intro hmarks
  -- The induction follows the place of the mark in the document, up through the layers.
  generalize hv : l.write = v at hmarks
  induction hmarks generalizing l with
  | here settings kind =>
      obtain ⟨s, hs, rfl⟩ := transforms_of_write hv settings
      have hset := State.names_of_names_entries Field.ofKey?_key kind
      have hnone : s.params.visualCropEnabled = none := (bears_iff.mp h s hs).1
      simp [State.get, Params.get, hnone] at hset
  | above settings layers item _ ih =>
      obtain ⟨s, hs, rfl⟩ := transforms_of_write hv settings
      obtain ⟨ls, hls, heq⟩ := State.layers_of_mem_entries (Field.key_inj · .layers) layers
      cases heq
      rw [writeLayers_eq_map] at item
      obtain ⟨k, hk, rfl⟩ := List.mem_map.mp item
      exact ih ((bears_iff.mp h s hs).2 k (by rwa [State.layerList, hls])) rfl

theorem State.not_marksLayers_entries {name : Field → String} {s : State}
    (hname : ∀ f, name f = "layers" → f = .layers) (h : s.Bears (·.visualCropEnabled = none)) :
    ¬ (s.entries name).MarksLayers := by
  rintro ⟨vs, v, hlayers, hv, hmarks⟩
  obtain ⟨ls, hls, heq⟩ := layers_of_mem_entries hname hlayers
  cases heq
  rw [writeLayers_eq_map] at hv
  obtain ⟨l, hl, rfl⟩ := List.mem_map.mp hv
  exact Layer.not_marksLayer_write (h l (by rwa [layerList, hls])) hmarks

theorem Changes.not_marksLayers_ofState {given : List Field} {s : State}
    (h : s.Bears (·.visualCropEnabled = none)) : ¬ (ofState given s).MarksLayers := by
  rintro ⟨vs, v, hlayers, hv, hmarks⟩
  obtain ⟨f, -, hf⟩ := List.mem_map.mp hlayers
  obtain ⟨rfl, hget⟩ := Prod.mk.inj hf
  have hlist : s.get .layers = some (.list vs) := by
    cases hs : s.get .layers with
    | none =>
        rw [hs] at hget
        cases hget
    | some w =>
        rw [hs] at hget
        exact congrArg some hget
  have hentry : ("layers", Value.list vs) ∈ s.entries Field.key :=
    Entries.mem_of_lookup ((s.lookup_entries Field.key_inj .layers).trans hlist)
  exact s.not_marksLayers_entries (Field.key_inj · .layers) h ⟨vs, v, hentry, hv, hmarks⟩

/-! ## What is read -/

/-- Settings as layers have them: without an image, and without the mark where that is `strict`. -/
structure Params.Clean (strict : Prop) (p : Params) : Prop where
  image : p.imagePath = none
  size : p.originalDimensions = none
  mark : strict → p.visualCropEnabled = none

variable {strict : Prop}

theorem Params.clean_empty : Params.Clean strict {} := ⟨rfl, rfl, fun _ => rfl⟩

theorem Value.HasSettings.and {B : Entries → Prop} {v : Value}
    (h : v.HasSettings fun es => strict ∧ B es) : strict ∧ v.HasSettings B := by
  induction h with
  | here settings kind => exact ⟨kind.1, .here settings kind.2⟩
  | above settings layers item _ ih => exact ⟨ih.1, .above settings layers item ih.2⟩

theorem Entries.spelled?_of_not_names {f : Field} {es : Entries} (h : ¬ es.Names f) :
    es.spelled? f.key f.spelled = none := by
  have hnone : ∀ k, Field.ofKey? k = some f → es.lookup k = none := by
    intro k hk
    cases hv : es.lookup k with
    | none => rfl
    | some v => exact absurd ⟨(k, v), mem_of_lookup hv, hk⟩ h
  rw [spelled?, hnone _ f.ofKey?_key, hnone _ f.ofKey?_spelled, Option.map_none]

/-- The settings of a layer are read without the image, and without the mark if it is not named. -/
theorem readsAs_clean (strict : Prop) :
    ReadsAs (fun es => strict ∧ es.Names .visualCropEnabled)
      (fun inLayer p => inLayer = true → p.Clean strict) (fun _ => True) where
  params es h := by
    have hplain : strict → (Params.read true es).Yields fun p => p.visualCropEnabled = none :=
      fun hstrict =>
        Params.read_plain (Entries.spelled?_of_not_names fun hnames => h ⟨hstrict, hnames⟩)
    refine ((Params.accepts_read true es).and_yields hplain).mono fun p hp _ => ?_
    obtain ⟨himage, hsize⟩ := hp.1.image rfl
    exact ⟨himage, hsize, hp.2⟩
  props es := (LayerProps.accepts_read es).mono fun _ _ => trivial

/-- The layers of a state are clean if its entries mark none of them. -/
theorem State.clean_of_check {es : Entries} (h : strict → ¬ es.MarksLayers) :
    (State.check false (.object es)).Accepts fun s => s.Bears (Params.Clean strict) := by
  -- The settings at the root may name an image and the mark; nothing is asked of them.
  have hread := State.accepts_check_of (readsAs_clean strict) (.object es) false
    (fun es _ => (Params.accepts_read false es).mono fun p _ h => nomatch h) ?_
  · refine hread.mono fun s hs l hl => ?_
    obtain ⟨p, _ | ls⟩ := s
    · cases hl
    · exact ((hs.layers rfl).of_mem hl).mono (fun p hp => hp rfl) fun _ => id
  · rintro es' hes ⟨vs, l, hlayers, hl, hin⟩
    cases hes
    obtain ⟨hstrict, hmarks⟩ := hin.and
    exact h hstrict ⟨vs, l, hlayers, hl, hmarks⟩

theorem Layer.clean_of_check {v : Value} (h : strict → ¬ v.MarksLayer) :
    (Layer.check v).Accepts fun l => l.Bears (Params.Clean strict) := by
  have hread := Layer.accepts_check_of (readsAs_clean strict) v fun hin =>
    h hin.and.1 hin.and.2
  exact hread.mono fun l hl => hl.mono (fun p hp => hp rfl) fun _ _ => trivial

/-! ## What is merged -/

/-- The layers stay clean in changes that mark none. -/
theorem State.clean_of_merged {s : State} {cs : Changes} (hs : s.Bears (Params.Clean strict))
    (hcs : strict → ¬ cs.MarksLayers) :
    (s.merged cs).Accepts fun t => t.Bears (Params.Clean strict) := by
  refine State.clean_of_check fun hstrict hmarks => ?_
  rcases Changes.marksLayers_of_apply hmarks with hmarks | hmarks
  · exact s.not_marksLayers_entries (Field.spelled_inj · .layers)
      (hs.mono fun p hp => hp.mark hstrict) hmarks
  · exact hcs hstrict hmarks

theorem layerSpelled?_eq_transforms {k : String} (h : layerSpelled? k = some "transforms") :
    k = "transforms" := by
  obtain ⟨⟨first, second⟩, hfind, hsecond⟩ := Option.map_eq_some_iff.mp h
  have hmem := List.mem_of_find?_eq_some hfind
  have hkey := List.find?_some hfind
  obtain rfl : second = "transforms" := hsecond
  obtain rfl : first = "transforms" := by simpa [layerKeys] using hmem
  have hk : "transforms" = k := by simpa using hkey
  exact hk.symm

theorem Layer.write_eq (l : Layer) : l.write = .object l.entries := by
  obtain ⟨p, _ | s⟩ := l <;> rfl

/-- A layer stays clean in updates that do not mark it. -/
theorem Layer.clean_of_merged {l : Layer} {es : Entries} (hl : l.Bears (Params.Clean strict))
    (h : strict → ¬ (Value.object es).MarksLayer) :
    (l.merged es).Accepts fun m => m.Bears (Params.Clean strict) := by
  refine Layer.clean_of_check fun hstrict hmarks => ?_
  -- Settings in the merged document are those of the layer or of the updates.
  obtain ⟨ts, hts, hkind⟩ := Value.marksLayer_object.mp hmarks
  have hgiven : ∀ {fs : Entries}, ("transforms", .object ts) ∈ fs.layerSpelled →
      (Value.object fs).MarksLayer := by
    intro fs hfs
    obtain ⟨⟨k, v⟩, hmem, hk, rfl⟩ := Entries.mem_layerSpelled hfs
    obtain rfl := layerSpelled?_eq_transforms hk
    exact Value.marksLayer_object.mpr ⟨ts, hmem, hkind⟩
  rcases mem_foldl (R := fun e d => d = e) (fun es e d h => (Entries.mem_put h).symm) hts with
    hts | ⟨e, he, rfl⟩
  · refine Layer.not_marksLayer_write (hl.mono fun p hp => hp.mark hstrict) ?_
    rw [Layer.write_eq]
    exact hgiven hts
  · exact h hstrict (hgiven he)

/-! ## Documents of any version -/

theorem Check.accepts_lift {α β : Type} {P : β → Prop} {x : Except Failure α} {f : α → Check β}
    (h : ∀ a, x = .ok a → (f a).Accepts P) : (Check.lift x >>= f).Accepts P := by
  cases x with
  | ok a => exact h a rfl
  | error e => exact Accepts.throw

theorem Check.yields_lift {α : Type} (x : Except Failure α) :
    (Check.lift x).Yields fun a => x = .ok a := by
  cases x with
  | ok a => exact .pure rfl
  | error f => exact fun p a q h => nomatch h

theorem State.clean_of_ofEntries {es : Entries} (h : strict → ¬ es.MarksLayers) :
    (State.ofEntries es).Accepts fun s => s.Bears (Params.Clean strict) :=
  Check.accepts_lift fun _ hout => State.clean_of_check fun hstrict hmarks =>
    h hstrict (Entries.marksLayers_of_migrate hout hmarks)

/-- A state that is read has the mark only if its document names it. -/
theorem State.plain_of_check {es : Entries} (h : ¬ es.Names .visualCropEnabled) :
    (State.check false (.object es)).Yields Plain := by
  rw [State.check]
  refine Yields.bind (Params.read_plain (Entries.spelled?_of_not_names h)) fun p hp => ?_
  exact Yields.bind_any fun layers => .pure hp

theorem State.plain_of_ofEntries {es : Entries} (h : ¬ es.Names .visualCropEnabled) :
    (State.ofEntries es).Yields Plain :=
  (Check.yields_lift es.migrate).bind fun _ hout =>
    State.plain_of_check fun hnames =>
      h (Entries.names_of_migrate (by decide) (by decide) hout hnames)

/-- Entries have a field among those given only if they name it. -/
theorem Entries.names_of_mem_given {es : Entries} {f : Field} (h : f ∈ es.given) : es.Names f := by
  have hhas : ∀ {k : String}, es.has k = true → ∃ v, (k, v) ∈ es := fun hk => by
    obtain ⟨v, hv⟩ := Option.isSome_iff_exists.mp hk
    exact ⟨v, mem_of_lookup hv⟩
  have hgiven := (List.mem_filter.mp h).2
  rcases Bool.or_eq_true_iff.mp hgiven with hk | hk
  · obtain ⟨v, hv⟩ := hhas hk
    exact ⟨_, hv, f.ofKey?_key⟩
  · obtain ⟨v, hv⟩ := hhas hk
    exact ⟨_, hv, f.ofKey?_spelled⟩

theorem State.clean_of_readGiven {v : Value}
    (h : strict → ∀ es, v.entries? = .ok es → ¬ es.MarksLayers) :
    (State.readGiven v).Accepts fun r => r.2.Bears (Params.Clean strict) := by
  refine Check.accepts_lift fun es hes => Check.accepts_lift fun out hout => ?_
  refine (State.clean_of_check fun hstrict hmarks => ?_).bind fun s => .pure id
  exact h hstrict es hes (Entries.marksLayers_of_migrate hout hmarks)

theorem State.plain_of_readGiven {v : Value}
    (h : ∀ es, v.entries? = .ok es → ¬ es.Names .visualCropEnabled) :
    (State.readGiven v).Yields fun r => .visualCropEnabled ∉ r.1 ∧ r.2.Plain := by
  refine (Check.yields_lift v.entries?).bind fun es hes => ?_
  refine (Check.yields_lift es.migrate).bind fun out hout => ?_
  have hnames : ¬ out.Names .visualCropEnabled := fun hnames =>
    h es hes (Entries.names_of_migrate (by decide) (by decide) hout hnames)
  refine (State.plain_of_check hnames).bind fun s hs => .pure ⟨fun hmem => ?_, hs⟩
  exact hnames (Entries.names_of_mem_given hmem)

/-! ## Documents of settings of a layer -/

/-- Whether entries of the settings of a layer name the mark, for the layer or for one on top of
it. -/
def Entries.Marks (es : Entries) : Prop := es.Names .visualCropEnabled ∨ es.MarksLayers

/-- Settings that a layer may get, without the image that they are for. -/
def State.Fits (strict : Prop) (s : State) : Prop :=
  s.Bears (Params.Clean strict) ∧ (strict → s.Plain)

theorem State.Fits.clean {s : State} (h : s.Fits strict) :
    s.withoutIdentity.params.Clean strict := ⟨rfl, rfl, h.2⟩

theorem State.fits_of_ofEntries {es : Entries} (h : strict → ¬ es.Marks) :
    (State.ofEntries es).Accepts (State.Fits strict) :=
  (State.clean_of_ofEntries fun hstrict hmarks => h hstrict (.inr hmarks)).and_yields
    fun hstrict => State.plain_of_ofEntries fun hnames => h hstrict (.inl hnames)

theorem State.fits_of_readGiven {v : Value}
    (h : strict → ∀ es, v.entries? = .ok es → ¬ es.Marks) :
    (State.readGiven v).Accepts fun r =>
      r.2.Fits strict ∧ (strict → .visualCropEnabled ∉ r.1) := by
  have hclean := State.clean_of_readGiven (v := v) fun (hstrict : strict) es hes hmarks =>
    h hstrict es hes (.inr hmarks)
  refine (hclean.and_yields fun hstrict => State.plain_of_readGiven fun es hes hnames =>
    h hstrict es hes (.inl hnames)).mono fun r hr => ?_
  exact ⟨⟨hr.1, fun hstrict => (hr.2 hstrict).2⟩, fun hstrict => (hr.2 hstrict).1⟩

theorem State.fits_of_merged {s : State} {cs : Changes} (hs : s.Fits strict)
    (h : strict → (∀ c ∈ cs, c.1 ≠ .visualCropEnabled) ∧ ¬ cs.MarksLayers) :
    (s.merged cs).Accepts (State.Fits strict) :=
  (State.clean_of_merged hs.1 fun hstrict => (h hstrict).2).and_yields fun hstrict =>
    State.plain_of_merged (hs.2 hstrict) (h hstrict).1

end Retouch
