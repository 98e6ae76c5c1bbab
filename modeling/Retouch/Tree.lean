/-
  Layers addressed in the tree.

  A path of ids leads from the root through the layers, at each step to the first layer with the
  id. Updates rebuild the nodes on the path and leave the rest alone. Main facts: a path leads to
  the state of the layer that it leads to (`stateAt?_eq_map_layerAt?`), and replacing the first
  layer with an id keeps the length of a list (`length_replaceFirst`).
-/
import Retouch.State.Write
import Retouch.Value.Same
import Retouch.Failure

namespace Retouch

/-! ## Finding -/

/-- The first layer with an id. -/
def findLayer? (id : String) (layers : List Layer) : Option Layer :=
  layers.find? (·.id = id)

namespace State

/-- The layer directly on top of a state's image with an id. -/
def child? (s : State) (id : String) : Option Layer := findLayer? id s.layerList

/-- The layer that a path leads to; the empty path leads to none. -/
def layerAt? (root : State) : List String → Option Layer
  | [] => none
  | [id] => root.child? id
  | id :: rest => (root.child? id).bind fun l => l.state.layerAt? rest

/-- The state at the end of a path, that of the root for the empty path. -/
def stateAt? (root : State) : List String → Option State
  | [] => some root
  | id :: rest => (root.child? id).bind fun l => l.state.stateAt? rest

end State

mutual

/-- The path to the first layer with an id in a tree, each layer before those on top of it. -/
def State.findPath? (id : String) : State → Option (List String)
  | ⟨_, none⟩ => none
  | ⟨_, some layers⟩ => findPathAmong? id layers

/-- The path to the first layer with an id among layers and those on top of them. -/
def findPathAmong? (id : String) : List Layer → Option (List String)
  | [] => none
  | l :: ls =>
    match l.findPath? id with
    | some path => some path
    | none => findPathAmong? id ls

/-- The path to the first layer with an id, from a layer on. -/
def Layer.findPath? (id : String) : Layer → Option (List String)
  | ⟨p, none⟩ => if p.id = id then some [p.id] else none
  | ⟨p, some s⟩ =>
    if p.id = id then some [p.id] else (s.findPath? id).map (p.id :: ·)

end

/-! ## Changing -/

/-- Replaces the first layer with an id. -/
def replaceFirst (id : String) (missing : Failure) (f : Layer → Except Failure Layer) :
    List Layer → Except Failure (List Layer)
  | [] => .error missing
  | l :: ls =>
    if l.id = id then do return (← f l) :: ls
    else do return l :: (← replaceFirst id missing f ls)

namespace State

/-- Replaces the layers of the state at the end of a path. -/
def updateLayersAt (f : List Layer → Except Failure (List Layer)) :
    List String → State → Except Failure State
  | [], s => do return { s with layers := some (← f s.layerList) }
  | id :: rest, s => do
    -- A layer without settings gets some, since there are layers on it now.
    let inside (l : Layer) : Except Failure Layer := do
      return { l with transforms := some (← updateLayersAt f rest l.state) }
    let layers ← replaceFirst id (.layerMissing (.onPath id)) inside s.layerList
    return { s with layers := some layers }

/-- Replaces the layer that a path leads to. -/
def replaceLayerAt (root : State) (path : List String) (f : Layer → Layer) :
    Except Failure State :=
  match path.getLast? with
  | none => .error (.value .emptyLayerPath)
  | some id =>
    root.updateLayersAt
      (replaceFirst id (.layerMissing (.anywhere id)) fun l => .ok (f l)) path.dropLast

/-- Gives the layer that a path leads to new settings, without the image they are for. -/
def setTransformsAt (root : State) (path : List String) (s : State) : Except Failure State :=
  root.replaceLayerAt path fun l => { l with transforms := some s.withoutIdentity }

/-- Whether two trees ask for the same, where all doubles that are no number count as equal. -/
def same (a b : State) : Bool := a.write.same b.write

end State

/-! ## Laws -/

/-- A path leads to the state of the layer that it leads to. -/
theorem State.stateAt?_eq_map_layerAt? (root : State) {path : List String} (h : path ≠ []) :
    root.stateAt? path = (root.layerAt? path).map Layer.state := by
  induction path generalizing root with
  | nil => exact absurd rfl h
  | cons id rest ih =>
    cases rest with
    | nil =>
      simp only [State.stateAt?, State.layerAt?]
      cases root.child? id <;> rfl
    | cons next rest =>
      simp only [State.stateAt?, State.layerAt?]
      cases root.child? id with
      | none => rfl
      | some l => exact ih l.state (by simp)

/-- Replacing a layer keeps the number of layers. -/
theorem length_replaceFirst {id : String} {missing : Failure} {f : Layer → Except Failure Layer}
    {ls out : List Layer} (h : replaceFirst id missing f ls = .ok out) :
    out.length = ls.length := by
  induction ls generalizing out with
  | nil => cases h
  | cons l ls ih =>
    by_cases hid : l.id = id
    · cases hf : f l with
      | error e => simp [replaceFirst, hid, hf, bind, Except.bind] at h
      | ok m =>
        simp [replaceFirst, hid, hf, bind, Except.bind, pure, Except.pure] at h
        simp [← h]
    · cases hr : replaceFirst id missing f ls with
      | error e => simp [replaceFirst, hid, hr, bind, Except.bind] at h
      | ok m =>
        simp [replaceFirst, hid, hr, bind, Except.bind, pure, Except.pure] at h
        simp [← h, ih hr]

/-- A tree asks for the same as itself. -/
theorem State.same_refl (s : State) : s.same s = true := Value.same_refl s.write

end Retouch
