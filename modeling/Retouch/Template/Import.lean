/-
  Templates applied to an image.

  A document of a template is taken as far as it goes: a crop is left out, layers without image
  are skipped, settings with unusable values are ignored, and each of these is reported by a
  warning. Only a document without version or settings, or with other unusable parts, is refused.
-/
import Retouch.Template.Export
import Retouch.Value.Reader

namespace Retouch

/-! ## Warnings -/

/-- What a template was not taken for, or only in part. -/
inductive Warning where
  | unreadable (cause : Value.Fault)
  | notObject
  | missing (keys : List String)
  | version (found supported : String)
  | droppedLayers (count : Nat)
  | ignoredValue (key : String)
  | settingsUnreadable
  | documentInvalid (count : Nat)
  deriving DecidableEq, Repr

namespace Warning

/-- The category of a warning. -/
def category : Warning → String
  | .version .. => "version-mismatch"
  | .droppedLayers _ => "missing-layer"
  | .ignoredValue _ => "invalid-filter"
  | _ => "invalid-json"

/-- The wording of a warning. -/
def message : Warning → String
  | .unreadable cause => "Template is not valid JSON: " ++ cause.message
  | .notObject => "Template must be a JSON object"
  | .missing keys => "Template is missing required fields: " ++ String.intercalate ", " keys
  | .version found supported =>
    "Template version " ++ found ++ " differs from supported version " ++ supported ++
      "; some settings may not apply"
  | .droppedLayers count =>
    Number.natText count ++ " layer(s) could not be loaded and were skipped"
  | .ignoredValue key => "Invalid value for '" ++ key ++ "' was ignored"
  | .settingsUnreadable => "Template transformations could not be read"
  | .documentInvalid count =>
    "Invalid template document: " ++ Number.natText count ++ " error(s)"

/-- The number that goes with a warning. -/
def count? : Warning → Option Nat
  | .droppedLayers count => some count
  | _ => none

/-- The document of a warning. -/
def write (w : Warning) : Value :=
  .object ([("type", .text w.category), ("message", .text w.message)] ++
    Template.optionalEntry "count" (w.count?.map fun n => .int n))

end Warning

/-- What came of applying a template. -/
structure ImportResult where
  warnings : List Warning
  /-- The template and the state it applies, if it was taken. -/
  outcome : Option (Template × State)

/-- The document of a result. -/
def ImportResult.write (r : ImportResult) : Value :=
  .object
    [("success", .bool r.outcome.isSome), ("warnings", .list (r.warnings.map Warning.write)),
      ("template", .ofOption (r.outcome.map fun o => o.1.write)),
      ("applied_state", .ofOption (r.outcome.map fun o => o.2.write))]

/-! ## Documents -/

/-- The keys that a document needs. -/
def requiredKeys : List String := ["version", "transformations"]

/-- Whether entries have no value at a key, or null. -/
def Entries.lacks (key : String) (es : Entries) : Bool :=
  match es.lookup key with
  | none | some .null => true
  | some _ => false

/-- The entries of a document with a version and settings, or why there are none. -/
def readDocument (text : String) : Except Warning Entries :=
  match Value.parse text with
  | .error cause => .error (.unreadable cause)
  | .ok (.object es) =>
    let missing := requiredKeys.filter (Entries.lacks · es)
    if !missing.isEmpty then .error (.missing missing)
    else
      match Entries.lookup "transformations" es with
      | some (.object _) => .ok es
      | _ => .error (.missing ["transformations"])
  | .ok _ => .error .notObject

/-! ## Layers without image -/

/-- Whether a value is a text that is not empty. -/
def Value.isWord : Value → Bool
  | .text s => !s.isEmpty
  | .rawText codes => !codes.isEmpty
  | _ => false

/-- The value at the first key that is there. -/
def Entries.firstOf (first second : String) (es : Entries) : Value :=
  .ofOption (es.lookup first <|> es.lookup second)

/-- Whether a value is a layer with an image and its size. -/
def Value.isUsableLayer : Value → Bool
  | .object es =>
    (Entries.firstOf "imagePath" "image_path" es).isWord &&
      match Entries.firstOf "originalDimensions" "original_dimensions" es with
      | .object dims =>
        (Value.ofOption (Entries.lookup "width" dims)).isSomething &&
          (Value.ofOption (Entries.lookup "height" dims)).isSomething
      | _ => false
  | _ => false

mutual

/-- The entries of a state without unusable layers at any depth, and how many there were. The
layers of an unusable layer are not counted. -/
def usableLayers : List (String × Value) → List (String × Value) × Nat
  | [] => ([], 0)
  | (k, .list vs) :: es =>
    if k = "layers" then
      let (kept, dropped) := usableItems vs
      ((k, .list kept) :: es, dropped)
    else
      let (rest, dropped) := usableLayers es
      ((k, .list vs) :: rest, dropped)
  | (k, v) :: es =>
    if k = "layers" then ((k, v) :: es, 0)
    else
      let (rest, dropped) := usableLayers es
      ((k, v) :: rest, dropped)

/-- The usable layers of a list, and how many were dropped. -/
def usableItems : List Value → List Value × Nat
  | [] => ([], 0)
  | .object es :: vs =>
    let (rest, dropped) := usableItems vs
    -- Only a layer that stays is looked into.
    if (Value.object es).isUsableLayer then
      let (kept, inside) := usableTransforms es
      (.object kept :: rest, inside + dropped)
    else (rest, dropped + 1)
  | _ :: vs =>
    let (rest, dropped) := usableItems vs
    (rest, dropped + 1)

/-- The entries of a layer without unusable layers in its settings, and how many there were. -/
def usableTransforms : List (String × Value) → List (String × Value) × Nat
  | [] => ([], 0)
  | (k, .object ts) :: es =>
    if k = "transforms" then
      let (kept, dropped) := usableLayers ts
      ((k, .object kept) :: es, dropped)
    else
      let (rest, dropped) := usableTransforms es
      ((k, .object ts) :: rest, dropped)
  | (k, v) :: es =>
    if k = "transforms" then ((k, v) :: es, 0)
    else
      let (rest, dropped) := usableTransforms es
      ((k, v) :: rest, dropped)

end

/-! ## Settings with unusable values -/

/-- The keys of the crop, which does not go through templates. -/
def cropKeys : List String := ["cropLeft", "cropTop", "cropWidth", "cropHeight"]

/-- The key at the front of a place. -/
def Problem.key? (p : Problem) : Option String :=
  match p.place with
  | .key k :: _ => some k
  | _ => none

/-- The keys of entries that problems are at, in ascending order. -/
def badKeys (es : Entries) (problems : List Problem) : List String :=
  (es.keys.filter fun k => problems.any fun p => p.key? = some k).mergeSort fun a b => a ≤ b

/-- The state that entries give without the keys whose values are unusable, those keys in the
order in which they were ignored, and the number of ids issued. Ignoring a key may uncover
another, so the entries are read again, at most `fuel` times. -/
def readLenient : (fuel : Nat) → (es : Entries) → (ignored : List String) → (issued : Nat) →
    Except Failure (Option State × List String) × Nat
  | 0, _, ignored, issued => (.ok (none, ignored), issued)
  | fuel + 1, es, ignored, issued =>
    match (State.ofEntries es).run issued with
    | (.ok s, n) => (.ok (some s, ignored), n)
    | (.error (.invalid problems), n) =>
      -- Problems below a key count for the key, so that one bad layer drops all of them.
      let bad := badKeys es problems
      -- Without a key to ignore another reading would end the same way.
      if bad.isEmpty then (.ok (none, ignored), n)
      else readLenient fuel (es.filter fun (k, _) => !bad.contains k) (ignored ++ bad) n
    | (.error f, n) => (.error f, n)

/-! ## Applying -/

/-- The state that a template applies to an image of a size. -/
def Template.applied (t : Template) (s : State) (current : Size) : State :=
  let s := s.portable
  let size :=
    match t.mode with
    | .adaptive => some current
    | .predefined => t.size
  match size with
  | some d => { s with params := { s.params with width := some d.width, height := some d.height } }
  | none => s

/-- Goes on with the document of a template whose settings were read. -/
def importDocument (es : Entries) (version : String) (s : State) (warnings : List Warning)
    (current : Size) (issued : Nat) : ImportResult × Nat :=
  -- The settings were read already, and the version counts as text whatever it was.
  let around := Entries.put "version" (.text version) (es.erase "transformations")
  match (Template.readAround around (pure s)).run issued with
  | (.ok t, n) => (⟨warnings, some (t, t.applied s current)⟩, n)
  | (.error (.invalid problems), n) =>
    (⟨warnings ++ [.documentInvalid problems.length], none⟩, n)
  | (.error _, n) => (⟨warnings ++ [.documentInvalid 0], none⟩, n)

/-- Applies the text of a template to an image of a size. -/
def importTemplate (text : String) (current : Size) (settings : Settings) (issued : Nat) :
    Except Failure ImportResult × Nat :=
  match readDocument text with
  | .error w => (.ok ⟨[w], none⟩, issued)
  | .ok es =>
    let version := Value.ofOption (es.lookup "version")
    match version with
    | .rawText _ => (.error (.invalid [⟨[.key "message"], .brokenText⟩]), issued)
    | _ =>
      let found := version.plainText
      let mismatch :=
        if found = settings.templateVersion then []
        else [Warning.version found settings.templateVersion]
      let given :=
        match es.lookup "transformations" with
        | some (.object ts) => ts.filter fun (k, _) => !cropKeys.contains k
        | _ => []
      let (kept, dropped) := usableLayers given
      let skipped := if dropped = 0 then [] else [Warning.droppedLayers dropped]
      match readLenient (kept.length + 1) kept [] issued with
      | (.error f, n) => (.error f, n)
      | (.ok (state, ignored), n) =>
        let warnings := mismatch ++ skipped ++ ignored.map Warning.ignoredValue
        match state with
        | none => (.ok ⟨warnings ++ [.settingsUnreadable], none⟩, n)
        | some s =>
          let (result, n) := importDocument es found s warnings current n
          (.ok result, n)

end Retouch
