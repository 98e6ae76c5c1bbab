/-
  Templates kept in a folder.

  Each template is a file named after its sanitized name, with an optional preview image beside
  it. The folder comes into being with the first file. Other files and folders may stand in it;
  they are no templates.
-/
import Retouch.Bytes.Utf8
import Retouch.Template.Import
import Retouch.Template.Name

namespace Retouch

/-- A thing in a folder. -/
inductive Item where
  | file (bytes : List UInt8)
  | folder
  deriving DecidableEq

/-- A folder of templates: nothing before it exists, then its things by name. -/
structure Library where
  items : Option (List (String × Item)) := none

/-! ## Documents of stored templates -/

/-- The keys that the document of a stored template needs. -/
def storedKeys : List String := ["version", "name", "transformations"]

/-- Whether a value is null or the empty text. -/
def Value.isBlankField : Option Value → Bool
  | none | some .null | some (.text "") => true
  | _ => false

/-- What is wrong with the document of a stored template. -/
def storedProblems : Value → List String
  | .object es =>
    let missing := storedKeys.filter fun k => Value.isBlankField (Entries.lookup k es)
    missing.map ("missing field: " ++ ·) ++
      match Entries.lookup "transformations" es with
      | none | some .null | some (.object _) => []
      | some _ => ["transformations must be an object"]
  | _ => ["template must be a JSON object"]

/-- Reads the text of a stored template; `source` names it in failures. -/
def Template.parse (text source : String) (issued : Nat) : Except Failure Template × Nat :=
  match Value.parse text with
  | .error cause => (.error (.template (.unreadable source cause)), issued)
  | .ok v =>
    let problems := storedProblems v
    if !problems.isEmpty then (.error (.template (.incomplete source problems)), issued)
    else
      match v with
      | .object es =>
        match (Template.read es).run issued with
        | (.error (.invalid problems), n) =>
          (.error (.template (.invalid source problems.length)), n)
        | r => r
      | _ => (.error (.template (.incomplete source problems)), issued)

/-- Each line end as a single line feed. -/
def unifyLineEnds : List Char → List Char
  | '\r' :: '\n' :: r => '\n' :: unifyLineEnds r
  | '\r' :: r => '\n' :: unifyLineEnds r
  | c :: r => c :: unifyLineEnds r
  | [] => []

namespace Library

/-! ## Files -/

/-- The longest name of a file, in bytes. -/
def longestName : Nat := 255

/-- Whether a name is short enough for a file. -/
def fits (name : String) : Bool := name.utf8ByteSize ≤ longestName

/-- The thing with a name. -/
def find? (l : Library) (name : String) : Option Item :=
  List.lookup name (l.items.getD [])

/-- Where a file of the folder is, as failures name it. -/
def path (file : String) : String := "<dir>/" ++ file

/-- Puts a file in place of one with the same name; not in place of a folder. -/
def write (l : Library) (name : String) (bytes : List UInt8) : Except FileFault Library :=
  match l.find? name with
  | some .folder => .error .folder
  | _ =>
    -- The order of the things does not matter: names are listed sorted.
    let others := (l.items.getD []).filter (·.1 ≠ name)
    if fits name then .ok ⟨some (others ++ [(name, .file bytes)])⟩ else .error .nameTooLong

/-- Adds a folder. -/
def addFolder (l : Library) (name : String) : Library :=
  ⟨some ((l.items.getD []).filter (·.1 ≠ name) ++ [(name, .folder)])⟩

/-- Brings the folder of templates into being. -/
def create (l : Library) : Library := ⟨some (l.items.getD [])⟩

/-- Takes a thing away. -/
def remove (l : Library) (name : String) : Library :=
  ⟨l.items.map fun items => items.filter (·.1 ≠ name)⟩

/-- Whether there is a file with a name. A name that is too long cannot be asked for. -/
def hasFile (l : Library) (name : String) : Except Failure Bool :=
  if fits name then
    match l.find? name with
    | some (.file _) => .ok true
    | _ => .ok false
  else .error .fileSystem

/-- The names of all things in ascending order, nothing before the folder exists. -/
def names (l : Library) : Option (List String) :=
  l.items.map fun items => (items.map (·.1)).mergeSort fun a b => a ≤ b

/-! ## Templates -/

/-- The file name of a template, if its name leaves anything. -/
def fileOf (name : String) : Except Failure String :=
  if (TemplateName.sanitize name TemplateName.maxLength).isEmpty then
    .error (.template (.badName name))
  else .ok (TemplateName.file name)

/-- Stores a template and its preview image; gives the file name. The folder exists afterwards
even if storing fails, unless the name is refused. -/
def save (l : Library) (t : Template) (preview : Option (List UInt8)) :
    Except Failure String × Library :=
  let name := t.name.getD ""
  match fileOf name with
  | .error f => (.error f, l)
  | .ok file =>
    match l.create.write file (Bytes.ofText t.text) with
    | .error cause => (.error (.template (.notSaved name (path file) cause)), l.create)
    | .ok l =>
      match preview with
      | none => (.ok file, l)
      | some bytes =>
        let image := TemplateName.preview name
        match l.write image bytes with
        -- The template itself is stored then.
        | .error cause => (.error (.template (.notSaved name (path image) cause)), l)
        | .ok l => (.ok file, l)

/-- The text of a stored template. -/
def text (l : Library) (name : String) : Except Failure String :=
  match fileOf name with
  | .error f => .error f
  | .ok file =>
    match l.find? file with
    | some (.file bytes) =>
      match Bytes.text? bytes with
      | none => .error .notUtf8
      | some s => .ok (String.ofList (unifyLineEnds s.toList))
    | _ => .error (.template (.notFound name))

/-- A stored template. -/
def load (l : Library) (name : String) (issued : Nat) : Except Failure Template × Nat :=
  match l.text name, fileOf name with
  | .ok s, .ok file => Template.parse s (path file) issued
  | .error f, _ => (.error f, issued)
  | _, .error f => (.error f, issued)

/-- The preview image of a template, if there is one. -/
def preview (l : Library) (name : String) : Except Failure (Option (List UInt8)) := do
  let file := TemplateName.preview name
  if ← l.hasFile file then
    match l.find? file with
    | some (.file bytes) => return some bytes
    | _ => return none
  else return none

/-- The names of all stored templates in ascending order. -/
def list (l : Library) : List String :=
  let found := (l.items.getD []).filterMap fun (name, item) =>
    match item with
    | .file _ =>
      if TemplateName.fileEnd.toList.isSuffixOf name.toList then
        some (String.ofList (name.toList.take (name.length - TemplateName.fileEnd.length)))
      else none
    | .folder => none
  found.mergeSort fun a b => a ≤ b

/-- Whether a template is stored. -/
def contains (l : Library) (name : String) : Except Failure Bool := do
  l.hasFile (← fileOf name)

/-- Takes a template and its preview image away; says whether it was there. -/
def delete (l : Library) (name : String) : Except Failure Bool × Library :=
  match l.contains name with
  | .error f => (.error f, l)
  | .ok false => (.ok false, l)
  | .ok true =>
    let l := l.remove (TemplateName.file name)
    match l.hasFile (TemplateName.preview name) with
    -- The preview has the longer name, which can fail on its own once the template is gone.
    | .error f => (.error f, l)
    | .ok true => (.ok true, l.remove (TemplateName.preview name))
    | .ok false => (.ok true, l)

end Library

end Retouch
