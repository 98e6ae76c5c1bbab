/-
  States taken from documents, and changes applied to them.

  `Changes` say for some fields what they become: a value, or unset. Applying changes writes the
  state out, overrides the entries, and reads the result, so every new value is validated and
  every old one is read back. Documents that give a crop by its right and bottom edges are brought
  to the present form first.
-/
import Retouch.State.Read
import Retouch.State.Write

namespace Retouch

/-! ## Arithmetic on values -/

/-- A value as a number; a truth value counts as 0 or 1. -/
def Value.number? : Value → Option Number
  | .int n => some (.int n)
  | .bool b => some (.int (if b then 1 else 0))
  | .float x => some (.float x)
  | _ => none

/-- The difference of two numeric values. -/
def Value.sub (a b : Value) : Except Failure Value :=
  match a.number?, b.number? with
  | some m, some n => do return .ofNumber (← m.sub n)
  | _, _ => .error .wrongType

/-! ## Documents -/

/-- Replaces a far edge by the extent, if the near edge is there and the extent is not. -/
def Entries.edgeToExtent (far near extent : String) (es : Entries) : Except Failure Entries :=
  match es.lookup far, es.lookup near, es.lookup extent with
  | some f, some n, none => do return (es.erase far).put extent (← f.sub n)
  | _, _, _ => .ok es

/-- Brings entries to the present form: a crop has a width and a height. -/
def Entries.migrate (es : Entries) : Except Failure Entries := do
  -- Each axis is brought forward on its own; a crop may be old on one and new on the other.
  let es ← es.edgeToExtent "cropRight" "cropLeft" "cropWidth"
  es.edgeToExtent "cropBottom" "cropTop" "cropHeight"

/-- The key and value that a part of a list of pairs stands for, nothing if the key is no text. -/
def Value.pair? : Value → Except Failure (Option (String × Value))
  | .list [.text k, v] => .ok (some (k, v))
  -- Lists and objects cannot be keys; other values can, but no field has them.
  | .list [.list _, _] | .list [.object _, _] => .error .wrongType
  | .list [_, _] => .ok none
  | .list _ => .error (.value .notPairs)
  -- An object of two entries stands for its two keys.
  | .object [(k, _), (l, _)] => .ok (some (k, .text l))
  | .object _ => .error (.value .notPairs)
  | .text s =>
    match s.toList with
    | [k, v] => .ok (some (String.singleton k, .text (String.singleton v)))
    | _ => .error (.value .notPairs)
  | .rawText codes => if codes.length = 2 then .ok none else .error (.value .notPairs)
  | _ => .error .wrongType

/-- The entries that a value stands for: those of an object, or those given by a list of pairs. -/
def Value.entries? : Value → Except Failure Entries
  | .object es => .ok es
  | .list vs => do
    let pairs ← vs.mapM Value.pair?
    return Entries.ofPairs (pairs.filterMap fun p => p)
  | .text s => if s.isEmpty then .ok [] else .error (.value .notPairs)
  | .rawText _ => .error (.value .notPairs)
  | _ => .error .wrongType

/-- Goes on with a result, or ends the check with the failure. -/
def Check.lift {α : Type} : Except Failure α → Check α
  | .ok a => return a
  | .error f => throw f

/-- Reads a state from entries of any version. -/
def State.ofEntries (es : Entries) : Check State := do
  let es ← Check.lift es.migrate
  State.check false (.object es)

/-- Reads a state from a document of any version. -/
def State.ofDocument (v : Value) : Check State := do
  let es ← Check.lift v.entries?
  State.ofEntries es

/-! ## Changes -/

/-- New values for some fields, null to unset; no field stands twice. -/
abbrev Changes := List (Field × Value)

namespace Changes

/-- The new value of a field, if it changes. -/
def find? (f : Field) : Changes → Option Value
  | [] => none
  | (g, v) :: cs => if g = f then some v else find? f cs

/-- Sets the new value of a field, in place of an earlier one. -/
def put (f : Field) (v : Value) : Changes → Changes
  | [] => [(f, v)]
  | (g, w) :: cs => if g = f then (g, v) :: cs else (g, w) :: put f v cs

/-- Leaves a field as it is. -/
def drop (f : Field) (cs : Changes) : Changes :=
  cs.filter (·.1 ≠ f)

/-- The changes that entries give, in either spelling; other keys are ignored. -/
def ofEntries (es : Entries) : Changes :=
  es.foldl (fun cs (key, v) =>
    match Field.ofKey? key with
    | some f => cs.put f v
    | none => cs) []

/-- The changes that an object gives. -/
def ofObject : Value → Except Failure Changes
  | .object es => .ok (ofEntries es)
  | _ => .error .noParts

/-- The changes that make the given fields what they are in a state. -/
def ofState (given : List Field) (s : State) : Changes :=
  given.map fun f => (f, .ofOption (s.get f))

/-- The changes as entries in the second spelling. -/
def entries (cs : Changes) : Entries :=
  cs.map fun (f, v) => (f.spelled, v)

/-- Overrides the entries of a state; null removes an entry. -/
def apply (cs : Changes) (es : Entries) : Entries :=
  cs.foldl (fun es (f, v) => if v.isNull then es.erase f.spelled else es.put f.spelled v) es

end Changes

/-- The fields that entries give, set or null. -/
def Entries.given (es : Entries) : List Field :=
  Field.all.filter fun f => es.has f.key || es.has f.spelled

/-- Reads a whole state, along with the fields that are given for it. -/
def State.readGiven (v : Value) : Check (List Field × State) := do
  let es ← Check.lift v.entries?
  let es ← Check.lift es.migrate
  let s ← State.check false (.object es)
  return (es.given, s)

/-- The state with changes applied. -/
def State.merged (s : State) (cs : Changes) : Check State :=
  State.check false (.object (cs.apply (s.entries Field.spelled)))

/-! ## Changes of layers -/

/-- The keys of a layer in both spellings. -/
def layerKeys : List (String × String) :=
  [("id", "id"), ("imagePath", "image_path"), ("originalDimensions", "original_dimensions"),
    ("x", "x"), ("y", "y"), ("alpha", "alpha"), ("blendMode", "blend_mode"),
    ("visible", "visible"), ("name", "name"), ("transforms", "transforms")]

/-- A key of a layer in its second spelling, if it is one. -/
def layerSpelled? (key : String) : Option String :=
  (layerKeys.find? fun (first, second) => second = key || first = key).map (·.2)

/-- Entries with layer keys in the second spelling; other keys are left out. -/
def Entries.layerSpelled (es : Entries) : Entries :=
  es.foldl (fun out (key, v) =>
    match layerSpelled? key with
    | some k => out.put k v
    | none => out) []

/-- The entries of a layer. -/
def Layer.entries (l : Layer) : Entries :=
  match l.write with
  | .object es => es
  | _ => []

/-- The layer with the values that entries give. -/
def Layer.merged (l : Layer) (updates : Entries) : Check Layer :=
  Layer.check (.object (updates.layerSpelled.foldl (fun es (k, v) => Entries.put k v es)
    l.entries.layerSpelled))

end Retouch
