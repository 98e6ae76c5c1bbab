/-
  Moving through the tree and through its history.

  Switching the context goes down into a layer of the context, up to one on the path, or to any
  layer of the tree. Undo and redo bring back complete trees; the context then moves up as far as
  it has to. Main fact: the path kept after an undo is the start of the one before
  (`longestValid_prefix`).
-/
import Retouch.Editor.Basic

namespace Retouch.Editor

/-! ## Undo and redo -/

/-- The longest start of a path that leads to a layer. -/
def longestValid (root : State) : List String → List String
  | [] => []
  | id :: rest =>
    match root.child? id with
    | none => []
    | some l => id :: longestValid l.state rest

/-- The editor with a tree of its history. A tree that names an image also brings it back as the
base image. -/
def withTree (e : Editor) (tree : State) : Editor :=
  let e :=
    match tree.params.imagePath, tree.params.originalDimensions with
    | some imagePath, some size => if imagePath.isEmpty then e else { e with imagePath, size }
    | _, _ => e
  -- The root names the base image, also if the tree names none.
  let e := { e with root := e.identified tree }
  let path := longestValid e.root e.path
  if path = e.path then e else { e with context := .ofPath path, visualCrop := false }

/-- Brings back a tree. A selected layer that is no longer there is no longer selected. -/
def restoreTree (tree : State) : Edit Unit := do
  Edit.change (withTree · tree)
  match ← Edit.view fun e => .ok (e.selected.filter fun id => !id.isEmpty) with
  | none => pure ()
  | some id =>
    match ← Edit.view (·.contextLayer? id) with
    | some _ => pure ()
    | none => Edit.change fun e => { e with selected := none }
  changed

/-- Goes to the tree that the history gives, if it gives one; says whether it did. -/
def travel (f : History → State → Option State × History × List History.Effect) : Edit Bool := do
  match ← Edit.rewind f with
  | none => return false
  | some tree =>
    restoreTree tree
    return true

/-- Goes back to the tree before the last change. -/
def undo : Edit Bool := travel History.undo

/-- Goes forward to the tree that was undone last. -/
def redo : Edit Bool := travel History.redo

/-! ## The context -/

/-- The context to switch to, nothing if it is the present one: up one level without an id, else
the first that is found among the path, the layers of the context, and the whole tree. -/
def destination (e : Editor) (id : Option String) : Except Failure (Option Context) :=
  match id with
  | none => .ok (if e.path.isEmpty then none else some e.context.exit)
  | some id =>
    -- The present context is not entered again.
    if e.path.getLast? = some id then .ok none
    else if e.path.contains id then .ok (some (.ofPath (e.path.take (e.path.idxOf id + 1))))
    else do
      match ← e.contextLayer? id with
      | some _ => return some (e.context.enter id)
      | none =>
        match e.root.findPath? id with
        | some path => return some (.ofPath path)
        | none => .error (.layerMissing (.anywhere id))

/-- What is selected after a switch between two paths: going up, the layer that was left, except
at the root. -/
def selectionAfter (path target : List String) : Option String :=
  if target.length < path.length ∧ target.isPrefixOf path ∧ !target.isEmpty then
    path[target.length]?
  else none

/-- Switches to the layer with an id, or up one level. Changes in progress become an entry of the
history first. -/
def switchContext (id : Option String) : Edit Unit := do
  match ← Edit.view (·.destination id) with
  | none => return
  | some context =>
    -- An entry of the history never spans two contexts.
    Edit.recordBy fun h _ => h.flush
    Edit.change fun e =>
      { e with context, visualCrop := false, selected := selectionAfter e.path context.path }
    changed

/-! ## Laws -/

/-- The path that is kept is a start of the path. -/
theorem longestValid_prefix (root : State) (path : List String) :
    longestValid root path <+: path := by
  induction path generalizing root with
  | nil => exact List.prefix_rfl
  | cons id rest ih =>
    unfold longestValid
    cases root.child? id with
    | none => exact List.nil_prefix
    | some l => exact List.cons_prefix_cons.mpr ⟨rfl, ih l.state⟩

end Retouch.Editor
