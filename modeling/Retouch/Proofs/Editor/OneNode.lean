/-
  A change of settings changes one node of the tree.

  What is edited is read by following the context from the root, and written back by rebuilding the
  nodes on the way.  Reading and writing obey the laws of a lens (`State.setTransformsAt_ok`), so a
  change of settings alters only the node that the context leads to (`update_alters`).  Below that
  node the changes are merged into everything that was there, which is written out and read anew;
  as long as the changes do not name the layers, these come back as they were
  (`stateAt?_update`).
-/
import Retouch.Proofs.Editor.Steps
import Retouch.Proofs.State.Normal
import Retouch.Proofs.Tree.Lens

namespace Retouch

/-! ## Layers below a node -/

theorem Layer.id_normal (l : Layer) : l.normal.id = l.id := by
  obtain ⟨p, _ | s⟩ := l <;> rfl

theorem Layer.state_normal (l : Layer) : l.normal.state = l.state.normal := by
  obtain ⟨p, _ | s⟩ := l <;> rfl

namespace State

/-- What holds all over a tree holds in the layers of the state at the end of a path. -/
theorem Holds.layers_stateAt? {P : Bool → Params → Prop} {Q : LayerProps → Prop} {inLayer : Bool}
    {s t : State} {path : List String} (h : s.Holds P Q inLayer) (ht : s.stateAt? path = some t) :
    ∀ ls ∈ t.layers, layersHold P Q ls := by
  induction path generalizing s inLayer with
  | nil =>
      obtain rfl := Option.some.inj ht
      exact fun ls hls => h.layers hls
  | cons id rest ih =>
      rw [stateAt?] at ht
      obtain ⟨l, hl, ht⟩ := Option.bind_eq_some_iff.mp ht
      have hmem : l ∈ s.layerList := List.mem_of_find?_eq_some hl
      obtain ⟨p, _ | ls⟩ := s
      · cases hmem
      · have hlayer : l.Holds P Q := (h.layers rfl).of_mem hmem
        obtain ⟨q, _ | u⟩ := l
        · cases rest with
          | nil =>
              obtain rfl := Option.some.inj ht
              exact fun ls hls => by cases hls
          | cons next rest => cases ht
        · exact ih hlayer.2 ht

/-- Only the layers of a state matter to what paths from it lead to. -/
theorem layerAt?_congr {a b : State} (h : a.layers = b.layers) (q : List String) :
    a.layerAt? q = b.layerAt? q := by
  have hchild : ∀ id, a.child? id = b.child? id := fun id => by
    rw [child?, child?, layerList, layerList, h]
  cases q with
  | nil => rfl
  | cons id rest =>
      cases rest with
      | nil => exact hchild id
      | cons next rest => simp only [layerAt?, hchild]

theorem child?_normal (s : State) (id : String) :
    s.normal.child? id = (s.child? id).map Layer.normal := by
  have hlist : s.normal.layerList = s.layerList.map Layer.normal := by
    rw [layerList, normal_layers, layerList]
    cases s.layers with
    | none => rfl
    | some ls => exact normalLayers_eq_map ls
  rw [child?, hlist, findLayer?, List.find?_map]
  simp only [Function.comp_def, Layer.id_normal]
  rfl

theorem layerAt?_normal (s : State) (q : List String) :
    s.normal.layerAt? q = (s.layerAt? q).map Layer.normal := by
  induction q generalizing s with
  | nil => rfl
  | cons id rest ih =>
      by_cases hrest : rest = []
      · subst hrest
        exact child?_normal s id
      · rw [layerAt?_cons _ _ hrest, layerAt?_cons _ _ hrest, child?_normal]
        cases s.child? id with
        | none => rfl
        | some l =>
            show l.normal.state.layerAt? rest = (l.state.layerAt? rest).map Layer.normal
            rw [Layer.state_normal, ih]

end State

/-! ## Merging changes -/

/-- Changes of settings leave the layers, in normal form. -/
theorem State.layers_of_merged {s : State} {cs : Changes} (hcs : ∀ c ∈ cs, c.1 ≠ .layers)
    (hlayers : ∀ ls ∈ s.layers, layersHold Params.Valid (fun _ => True) ls) :
    (s.merged cs).Accepts fun t => t.layers = s.layers.map normalLayers := by
  unfold State.merged
  rw [State.check]
  refine (Params.accepts_read false _).bind_any fun p => ?_
  refine (accepts_checkLayersIn_written (lookup_layers_of_changes hcs) fun ls hls =>
    accepts_checkItems_write ls 0 (hlayers ls hls)).bind fun layers => .pure id

namespace Editor

open Edit

/-! ## What is written -/

variable {c : Core}

/-- Whether an editor differs from what it was at the node of its context only; where `below` holds
also the layers below the node are written as they were. -/
def AltersNode (below : Prop) (c : Core) (e : Editor) : Prop :=
  State.AltersOnly c.context.path c.root e.root ∧
    (below → ∀ q, q ≠ [] → (e.root.layerAt? (c.context.path ++ q)).map Layer.write =
      (c.root.layerAt? (c.context.path ++ q)).map Layer.write)

theorem AltersNode.of_eq {below : Prop} {e : Editor} (he : e.core = c) : AltersNode below c e := by
  have hroot : e.root = c.root := congrArg Core.root he
  rw [AltersNode, hroot]
  exact ⟨.refl _ _, fun _ _ _ => rfl⟩

/-- A new state for what is edited alters one node.  What is below comes from the new state. -/
theorem writeCurrent_alters {below : Prop} {s t : State}
    (hs : c.root.stateAt? c.context.path = some s)
    (hbelow : below → t.layers = s.layers.map normalLayers) :
    Triple (·.core = c) (writeCurrent t) (fun _ e => AltersNode below c e) (·.core = c) := by
  -- The new node, which was put there with the layers of the new state.
  have hnode : ∀ {root : State} {u : State}, root.stateAt? c.context.path = some u →
      u.layers = t.layers → below → ∀ q, q ≠ [] →
        (root.layerAt? (c.context.path ++ q)).map Layer.write =
          (c.root.layerAt? (c.context.path ++ q)).map Layer.write := by
    intro root u hu hlayers h q hq
    have hsame : u.layerAt? q = s.normal.layerAt? q :=
      State.layerAt?_congr (by rw [hlayers, hbelow h, State.normal_layers]) q
    rw [State.layerAt?_append _ _ hq, State.layerAt?_append _ _ hq, hu, hs, Option.bind_some,
      Option.bind_some, hsame, State.layerAt?_normal, Option.map_map]
    exact congrArg (Option.map · _) (funext Layer.write_normal)
  refine Triple.bind_view fun e he => Triple.mapRoot ?_ ?_
  · rintro e' root rfl hroot
    have hbase : e'.root = c.root := congrArg Core.root he
    by_cases hpath : e'.path.isEmpty
    · rw [if_pos hpath] at hroot
      rw [path_eq he, List.isEmpty_iff] at hpath
      obtain rfl := Except.ok.inj hroot
      refine ⟨?_, hnode (u := e'.identified t) (by rw [hpath]; rfl) rfl⟩
      rw [hpath]
      exact State.altersOnly_nil _ _
    · rw [if_neg hpath, path_eq he, hbase] at hroot
      rw [path_eq he, List.isEmpty_iff] at hpath
      cases hl : c.root.layerAt? c.context.path with
      | none =>
          obtain ⟨w, hw⟩ := (State.setTransformsAt_error_iff c.root hpath t).mpr hl
          rw [hw] at hroot
          cases hroot
      | some l =>
          obtain ⟨root', hset, hlayer, halters, -⟩ := State.setTransformsAt_ok hl t
          obtain rfl : root' = root := Except.ok.inj (hset.symm.trans hroot)
          refine ⟨halters, hnode (u := t.withoutIdentity) ?_ rfl⟩
          show root'.stateAt? c.context.path = some t.withoutIdentity
          rw [State.stateAt?_eq_map_layerAt? root' hpath, hlayer]
          rfl
  · rintro e' x rfl hroot
    exact he

/-! ## Changes of settings -/

/-- Whether what is below a node is to stay: the tree is as validation leaves it, and the changes
name no layers. -/
def LayersStay (root : State) (cs : Changes) : Prop :=
  root.Holds Params.Valid (fun _ => True) false ∧ cs.find? .layers = none

/-- Merging changes into what is edited alters that node only. -/
theorem merge_alters {cs : Changes} {below : Prop} (hbelow : below → LayersStay c.root cs) :
    Triple (·.core = c)
      (do
        let s ← Edit.view current
        let merged ← Edit.check (s.merged cs)
        writeCurrent merged
        changed)
      (fun _ e => AltersNode below c e) (AltersNode below c) := by
  refine Triple.bind_found (R := fun s => c.root.stateAt? c.context.path = some s)
    (fun _ => AltersNode.of_eq) ?_ fun s hs => ?_
  · intro e s he hs
    have hs := stateAt?_of_current hs
    rwa [path_eq he, show e.root = c.root from congrArg Core.root he] at hs
  refine Triple.bind_checked (R := fun t => below → t.layers = s.layers.map normalLayers)
    (fun _ _ he => he) (fun _ => AltersNode.of_eq) ?_ fun merged hmerged => ?_
  · intro n t hrun h
    obtain ⟨hvalid, hcs⟩ := hbelow h
    exact (State.layers_of_merged (Changes.find?_eq_none.mp hcs)
      (hvalid.layers_stateAt? hs)).of_run hrun
  have hwrite := writeCurrent_alters hs hmerged
  exact Triple.bind (hwrite.conseq (fun _ => id) (fun _ _ => id)
    fun e' he' => AltersNode.of_eq he') fun _ => keeps_changed

/-- A change of settings alters what is edited only, whether it is refused or not. -/
theorem update_alters (updates : Updates) (recorded keepRatio : Bool) {below : Prop} {e : Editor}
    (hbelow : below → ∀ cs, (updates.changes.run e.issued).1 = .ok cs → LayersStay e.root cs) :
    Triple (· = e) (update updates recorded keepRatio)
      (fun _ e' => AltersNode below e.core e') (AltersNode below e.core) := by
  unfold update
  refine Triple.bind
    (R := fun cs e' => e'.core = e.core ∧ (below → LayersStay e.root cs)) (Triple.check ?_ ?_)
    fun changes => ?_
  · rintro e' cs n rfl hrun
    exact ⟨rfl, fun h => hbelow h cs hrun⟩
  · rintro e' n rfl
    exact AltersNode.of_eq rfl
  extract_lets kept noted
  have hnoted : ∀ u, Triple (fun e' => e'.core = e.core ∧ (below → LayersStay e.root changes))
      (noted u) (fun _ e' => AltersNode below e.core e') (AltersNode below e.core) := by
    intro u
    refine Triple.bind
      (R := fun cs e' => e'.core = e.core ∧ (below → LayersStay e.root cs))
      (Triple.view ?_ ?_) fun completed => ?_
    · rintro e' cs ⟨he, hstay⟩ hcs
      refine ⟨he, fun h => ⟨(hstay h).1, Changes.find?_eq_none.mpr fun x hx => ?_⟩⟩
      rcases mem_completed hcs hx with heq | heq | ⟨-, hmem⟩
      · simp [heq]
      · simp [heq]
      · exact Changes.find?_eq_none.mp (hstay h).2 x hmem
    · exact fun e' x he _ => AltersNode.of_eq he.1
    refine Triple.of_forall fun e' he => ?_
    have hmerge : ∀ h, Triple (·.core = { e.core with history := h }) _
        (fun _ e' => AltersNode below e.core e') (AltersNode below e.core) := fun h =>
      merge_alters (c := { e.core with history := h }) he.2
    cases recorded with
    | true =>
        refine Triple.bind ((recordBy_makes History.record).conseq (fun e'' he'' => he'' ▸ he.1)
          (fun _ _ => id) fun _ he => AltersNode.of_eq he) fun _ => hmerge _
    | false => exact (hmerge e.core.history).pre_mono fun e'' he'' => he'' ▸ he.1
  split
  · exact Triple.bind (Triple.change fun _ he => he) hnoted
  · exact hnoted ()

/-- Reading and writing at a path are a lens on the tree, and a change of settings goes through it.

    Writing fails exactly if the path leads to no layer.  Otherwise the layer gets the new settings,
    nothing else is altered, and of two writes at a path the last one counts.  So a change of
    settings, refused or not, alters only what is edited; if it names no layers, then all layers
    below are written as they were. -/
theorem lens_of_tree :
    (∀ (root : State) (path : List String) (t : State), path ≠ [] →
      ((∃ w, root.setTransformsAt path t = .error (.layerMissing w)) ↔
        root.layerAt? path = none) ∧
      ∀ l, root.layerAt? path = some l → ∃ root', root.setTransformsAt path t = .ok root' ∧
        root'.layerAt? path = some { l with transforms := some t.withoutIdentity } ∧
        State.AltersOnly path root root' ∧
        ∀ u, root'.setTransformsAt path u = root.setTransformsAt path u) ∧
    ∀ (e : Editor) (updates : Updates) (recorded keepRatio : Bool),
      State.AltersOnly e.path e.root ((update updates recorded keepRatio).run e).editor.root ∧
      ((∀ cs, (updates.changes.run e.issued).1 = .ok cs → LayersStay e.root cs) →
        ∀ q, q ≠ [] → (((update updates recorded keepRatio).run e).editor.root.layerAt?
            (e.path ++ q)).map Layer.write = (e.root.layerAt? (e.path ++ q)).map Layer.write) := by
  refine ⟨fun root path t hpath => ⟨State.setTransformsAt_error_iff root hpath t, fun l hl =>
    State.setTransformsAt_ok hl t⟩, fun e updates recorded keepRatio => ?_⟩
  have halters : AltersNode
      (∀ cs, (updates.changes.run e.issued).1 = .ok cs → LayersStay e.root cs) e.core
      ((update updates recorded keepRatio).run e).editor :=
    (update_alters updates recorded keepRatio fun h => h).of_run rfl (fun _ _ => id) fun _ => id
  exact halters

/-- An editor with a layer that has no settings yet. -/
def dotted : Editor :=
  { start {} "base.png" ⟨100, 100⟩ none with
    root := ⟨{}, some [
      ⟨{ id := "dot", imagePath := "dot.png", originalDimensions := ⟨1, 1⟩ }, none⟩]⟩ }

/-- The wanted width that the image gets. -/
def widen : Updates := ⟨.object [("width", .int 50)], false⟩

/-- The layer gets settings, and the image a wanted width. -/
theorem lens_of_tree_dotted :
    (∃ root', dotted.root.setTransformsAt ["dot"] .empty = .ok root' ∧
      State.AltersOnly ["dot"] dotted.root root') ∧
    State.AltersOnly [] dotted.root ((update widen false false).run dotted).editor.root ∧
    (((update widen false false).run dotted).editor.root.layerAt? ["dot"]).map Layer.write =
      (dotted.root.layerAt? ["dot"]).map Layer.write := by
  have hwidth : ∀ cs, (widen.changes.run dotted.issued).1 = .ok cs →
      LayersStay dotted.root cs := by
    intro cs hcs
    obtain rfl : [(Field.width, Value.int 50)] = cs := Except.ok.inj hcs
    exact ⟨⟨⟨fun _ h => (by cases h), fun h => (by cases h)⟩, trivial, trivial⟩, rfl⟩
  obtain ⟨-, hdot⟩ := lens_of_tree.1 dotted.root ["dot"] .empty (by decide)
  obtain ⟨root', hset, -, halters, -⟩ := hdot _ rfl
  obtain ⟨hroot, hbelow⟩ := lens_of_tree.2 dotted widen false false
  exact ⟨⟨root', hset, halters⟩, hroot, hbelow hwidth ["dot"] (by decide)⟩

end Editor

end Retouch
