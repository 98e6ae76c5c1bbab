/-
  Templates: states that can be applied to other images.

  A template names a state and says which size it is for: an adaptive template takes the size of
  the image that it is applied to, a predefined one brings its own. A template is stored as an
  indented document. Where a document has no date of its own, it gets a fixed one.
-/
import Retouch.State.Merge
import Retouch.Value.Writer

namespace Retouch

/-- Which size a template is for. -/
inductive SizeMode where
  | adaptive | predefined
  deriving DecidableEq, Repr, Inhabited

namespace SizeMode

/-- The name of a mode. -/
def name : SizeMode → String
  | .adaptive => "adaptive"
  | .predefined => "predefined"

/-- The mode with a name. -/
def ofName? (name : String) : Option SizeMode :=
  if name = "adaptive" then some .adaptive
  else if name = "predefined" then some .predefined
  else none

/-- Reads a mode by name. -/
def read : Value → Check SizeMode
  | .text s =>
    match ofName? s with
    | some m => return m
    | none => Check.note .notListed .adaptive
  | _ => Check.note .notListed .adaptive

end SizeMode

/-- A state that can be applied to other images. -/
structure Template where
  version : String
  name : Option String
  description : Option String
  mode : SizeMode
  /-- The size of a predefined template. -/
  size : Option Size
  transformations : State
  createdAt : String

namespace Template

/-- The version of documents without one. -/
def currentVersion : String := "1.0"

/-- The date of documents without one. -/
def fixedDate : String := "2025-01-01T00:00:00+00:00"

/-! ## Writing -/

/-- An entry for a value that is there. -/
def optionalEntry (key : String) (v : Option Value) : Entries :=
  match v with
  | some v => [(key, v)]
  | none => []

/-- The document of a template. -/
def write (t : Template) : Value :=
  .object ([("version", .text t.version)] ++ optionalEntry "name" (t.name.map .text) ++
    optionalEntry "description" (t.description.map .text) ++
    [("dimensionMode", .text t.mode.name)] ++
    optionalEntry "predefinedDimensions" (t.size.map Size.write) ++
    [("transformations", t.transformations.write),
      ("metadata", .object [("createdAt", .text t.createdAt)])])

/-- The text of a template. -/
def text (t : Template) : String := t.write.indented .document 0

/-! ## Reading -/

/-- Reads a field that is optional or null. -/
def optionalKey {α : Type} (es : Entries) (first second : String) (c : Value → Check α) :
    Check (Option α) :=
  match es.spelled? first second with
  | none => return none
  | some (_, .null) => return none
  | some (key, v) => Check.within (.key key) (some <$> c v)

/-- Reads the date among the metadata. -/
def readDate : Value → Check String
  | .object es => fieldOr es "createdAt" "created_at" fixedDate Convert.text
  | _ => Check.note .notObject fixedDate

/-- Reads a template from its entries, the state in its place by a check of its own. -/
def readAround (es : Entries) (transformations : Check State) : Check Template := do
  let version ← fieldOr es "version" "version" currentVersion Convert.text
  let name ← optionalKey es "name" "name" Convert.text
  let description ← optionalKey es "description" "description" Convert.text
  let mode ← fieldOr es "dimensionMode" "dimension_mode" .adaptive SizeMode.read
  let size ← optionalKey es "predefinedDimensions" "predefined_dimensions" Size.read
  let transformations ← transformations
  let createdAt ← fieldOr es "metadata" "metadata" fixedDate readDate
  return { version, name, description, mode, size, transformations, createdAt }

/-- Reads a template from its entries. -/
def read (es : Entries) : Check Template :=
  readAround es (Convert.required es "transformations" (State.check false))

end Template

end Retouch
