/-
  Which part of a tree is being edited.

  The base image is edited at the root, a layer at the path that leads to it. Entering a layer
  goes one step down and leaving it one step up. Main fact: leaving undoes entering
  (`exit_enter`).
-/
import Retouch.Failure

namespace Retouch

/-- What is being edited: the base image, or the layer that a path leads to. -/
inductive Context where
  | root
  | layer (path : List String) (path_ne_nil : path ≠ [])
  deriving DecidableEq

namespace Context

/-- The context at a path, the root for the empty path. -/
def ofPath : List String → Context
  | [] => .root
  | id :: rest => .layer (id :: rest) (List.cons_ne_nil id rest)

/-- The context of a layer; no layer is at the empty path. -/
def ofLayerPath : List String → Except Failure Context
  | [] => .error (.value .emptyContextPath)
  | id :: rest => .ok (.layer (id :: rest) (List.cons_ne_nil id rest))

/-- The path to what is being edited. -/
def path : Context → List String
  | .root => []
  | .layer path _ => path

/-- The layer that is being edited. -/
def layerId? (c : Context) : Option String := c.path.getLast?

/-- How far below the root. -/
def depth (c : Context) : Nat := c.path.length

/-- Goes into a layer. -/
def enter (c : Context) (id : String) : Context := ofPath (c.path ++ [id])

/-- Goes up one level; the root stays. -/
def exit (c : Context) : Context := ofPath c.path.dropLast

@[simp] theorem path_ofPath (path : List String) : (ofPath path).path = path := by
  cases path <;> rfl

theorem ofPath_path (c : Context) : ofPath c.path = c := by
  cases c with
  | root => rfl
  | layer path h =>
    cases path with
    | nil => exact absurd rfl h
    | cons id rest => rfl

/-- Leaving a layer that was entered leads back. -/
theorem exit_enter (c : Context) (id : String) : (c.enter id).exit = c := by
  simp [enter, exit, ofPath_path]

end Context

end Retouch
