/-
  Everything that can go wrong, by cause.

  A computation of this library either has a result or ends in one `Failure`. Validation collects
  all `Problem`s of a document into a single failure. The wording of each cause is given once, by
  `Failure.message`. A refusal of a conversion, a decoder or the file system that no cause of this
  library stands around is worded by its kind only.
-/
import Retouch.Value.Fault
import Retouch.Value.Quoted

namespace Retouch

/-! ## Problems of a document -/

/-- One step of the way from a document to a part of it. -/
inductive Step where
  | key (name : String)
  | index (n : Nat)
  deriving DecidableEq, Repr

/-- What is wrong with one part of a document. -/
inductive Problem.Kind where
  | missing
  | notObject
  | notList
  | notText
  | brokenText
  | notWhole
  | wholeUnreadable
  | wholeHasFraction
  | wholeTooLarge
  | notNumber
  | numberUnreadable
  | notFinite
  | notTruth
  | truthUnreadable
  | notListed
  | belowRange
  | aboveRange
  | refused
  | unexpected
  deriving DecidableEq, Repr

/-- The code of a kind of problem. -/
def Problem.Kind.code : Problem.Kind → String
  | .missing => "missing"
  | .notObject => "model_type"
  | .notList => "list_type"
  | .notText => "string_type"
  | .brokenText => "string_unicode"
  | .notWhole => "int_type"
  | .wholeUnreadable => "int_parsing"
  | .wholeHasFraction => "int_from_float"
  | .wholeTooLarge => "int_parsing_size"
  | .notNumber => "float_type"
  | .numberUnreadable => "float_parsing"
  | .notFinite => "finite_number"
  | .notTruth => "bool_type"
  | .truthUnreadable => "bool_parsing"
  | .notListed => "enum"
  | .belowRange => "greater_than_equal"
  | .aboveRange => "less_than_equal"
  | .refused => "value_error"
  | .unexpected => "extra_forbidden"

/-- A problem and where it is. -/
structure Problem where
  place : List Step
  kind : Problem.Kind
  deriving DecidableEq, Repr

/-- The text of a step. -/
def Step.text : Step → String
  | .key name => name
  | .index n => Number.natText n

/-- The place, its steps joined by points, and the code. -/
def Problem.text (p : Problem) : String :=
  String.intercalate "." (p.place.map Step.text) ++ ": " ++ p.kind.code

/-! ## Causes -/

/-- Why a layer position is refused. -/
inductive PositionFault where
  | unreadable (value : Value)
  | centerWithOffset
  | negativeOffset (offset : Int)

/-- Which layer is missing. -/
inductive MissingLayer where
  /-- A step of a path that leads to no layer. -/
  | onPath (id : String)
  /-- An id that is nowhere in the tree. -/
  | anywhere (id : String)
  /-- An id that is not among the layers being edited. -/
  | inContext (id : String)
  /-- The path of the editing context leads nowhere. -/
  | context (path : List String)
  deriving DecidableEq, Repr

/-- Why a file cannot be written. -/
inductive FileFault where
  /-- A folder has its name. -/
  | folder
  | nameTooLong
  deriving DecidableEq, Repr

/-- Why a template cannot be stored or loaded. -/
inductive TemplateFault where
  | badName (name : String)
  | notFound (name : String)
  /-- The file at `path` cannot be written. -/
  | notSaved (name path : String) (cause : FileFault)
  /-- The file `source` is no document. -/
  | unreadable (source : String) (cause : Value.Fault)
  | incomplete (source : String) (problems : List String)
  | invalid (source : String) (count : Nat)
  deriving DecidableEq, Repr

/-- Why a path cannot be signed. -/
inductive SignerFault where
  | noSecret
  | unknownAlgorithm (name : String)
  deriving DecidableEq, Repr

/-- Which value is refused. -/
inductive ValueFault where
  | badFilter (text : String)
  | emptyLayerPath
  | emptyContextPath
  | orderMismatch
  /-- A word that is none of the choices. -/
  | unknownChoice
  /-- A number with more digits than are read. -/
  | tooManyDigits
  /-- A value that cannot be taken for a list of pairs. -/
  | notPairs
  deriving DecidableEq, Repr

/-- Why a computation ends without result. -/
inductive Failure where
  | invalid (problems : List Problem)
  | position (cause : PositionFault)
  | layerMissing (cause : MissingLayer)
  | template (cause : TemplateFault)
  | signer (cause : SignerFault)
  | preview (text : String)
  | value (cause : ValueFault)
  | arithmetic (cause : Number.Fault)
  /-- Malformed base64. -/
  | base64
  /-- An operation on a value of a kind that does not support it. -/
  | wrongType
  /-- A value without parts where a part is asked for. -/
  | noParts
  /-- A key that is not in a table. -/
  | unknownKey
  /-- Bytes that are no UTF-8. -/
  | notUtf8
  /-- A text that cannot be written in the wanted encoding. -/
  | notEncodable
  /-- A file system operation that is not possible. -/
  | fileSystem
  /-- The URL generator gave up. -/
  | generator (text : String)

/-! ## Wording -/

/-- The path of ids in parentheses, a comma behind the only one. -/
def idPathText : List String → String
  | [] => "()"
  | [id] => "(" ++ Text.quote id ++ ",)"
  | ids => "(" ++ String.intercalate ", " (ids.map Text.quote) ++ ")"

def PositionFault.message : PositionFault → String
  | .unreadable v => "invalid layer position: " ++ v.quoted
  | .centerWithOffset => "center alignment does not take an offset"
  | .negativeOffset n => "edge offset must be >= 0, got " ++ Number.intText n

def MissingLayer.message : MissingLayer → String
  | .onPath id => "Layer not found in context path: " ++ id
  | .anywhere id => "Layer not found: " ++ id
  | .inContext id => "Layer not found in current context: " ++ id
  | .context path => "Context path not found: " ++ idPathText path

def FileFault.message (path : String) : FileFault → String
  | .folder => "[Errno 21] Is a directory: " ++ Text.quote path
  | .nameTooLong => "[Errno 36] File name too long: " ++ Text.quote path

def TemplateFault.message : TemplateFault → String
  | .badName name => "Invalid template name: " ++ Text.quote name
  | .notFound name => "Template not found: " ++ Text.quote name
  | .notSaved name path cause =>
    "Failed to save template " ++ Text.quote name ++ ": " ++ cause.message path
  | .unreadable source cause => "Invalid template file " ++ source ++ ": " ++ cause.message
  | .incomplete source problems =>
    "Invalid template file " ++ source ++ ": " ++ String.intercalate "; " problems
  | .invalid source count =>
    "Invalid template file " ++ source ++ ": " ++ Number.natText count ++ " error(s)"

example : (TemplateFault.unreadable "Wide.json" (.tooManyDigits 4301)).message =
    "Invalid template file Wide.json: Exceeds the limit (4300 digits) for integer string " ++
      "conversion: value has 4301 digits; use sys.set_int_max_str_digits() to increase the limit" := by
  decide +kernel

def SignerFault.message : SignerFault → String
  | .noSecret => "imagor secret is required for signed URLs"
  | .unknownAlgorithm name => "Unknown signer algorithm: " ++ name

def ValueFault.message : ValueFault → String
  | .badFilter text => "Invalid filter: " ++ Text.quote text
  | .emptyLayerPath => "path must address a layer"
  | .emptyContextPath => "LayerContext requires a non-empty path"
  | .orderMismatch => "reorder_layers requires every layer of the context exactly once"
  | .unknownChoice => "not a valid choice"
  | .tooManyDigits => "Exceeds the limit for whole number conversion"
  | .notPairs => "not a sequence of pairs"

/-- The wording of a failure. -/
def Failure.message : Failure → String
  | .invalid problems => String.intercalate "; " (problems.map Problem.text)
  | .position cause => cause.message
  | .layerMissing cause => cause.message
  | .template cause => cause.message
  | .signer cause => cause.message
  | .preview text => text
  | .value cause => cause.message
  | .arithmetic cause => cause.message
  | .base64 => "malformed base64"
  | .wrongType => "unsupported type"
  | .noParts => "no such part"
  | .unknownKey => "unknown key"
  | .notUtf8 => "invalid UTF-8"
  | .notEncodable => "text cannot be encoded"
  | .fileSystem => "file system operation failed"
  | .generator text => text

instance : MonadLift (Except Number.Fault) (Except Failure) where
  monadLift
    | .ok a => .ok a
    | .error f => .error (.arithmetic f)

end Retouch
