/-
  States in the fragment of an address.

  A state is reduced to the fields that differ from their defaults, written compactly and put into
  base64. Reading a fragment never fails: what is no fragment stands for no state. A fragment that
  is shared leaves out the mark of editing the crop by hand.
-/
import Retouch.Bytes.Base64
import Retouch.Bytes.Utf8
import Retouch.State.Merge
import Retouch.Value.Reader
import Retouch.Value.Writer

namespace Retouch.Fragment

/-! ## Defaults -/

/-- The default of a field, where it has one besides being unset. -/
def default? (key : String) : Option Value :=
  if key = "fitIn" then some (.bool true)
  else if ["stretch", "smart", "grayscale", "hFlip", "vFlip"].contains key then some (.bool false)
  else if ["brightness", "contrast", "saturation", "hue", "blur", "sharpen",
      "rotation"].contains key then some (.int 0)
  else none

/-- Whether two values of which the second is a truth value or zero are the same; a truth value
is never the same as a number. -/
def isSame : Value → Value → Bool
  | .bool a, .bool b => a = b
  | .int m, .int n => m = n
  | .float x, .int 0 => x == 0.0
  | _, _ => false

/-- Whether a value is the default of the field with a key. The size has no default. -/
def isDefault (key : String) (v : Value) : Bool :=
  -- The size is kept even when it is unset, which writes nothing.
  if key = "width" || key = "height" then false
  else
    match default? key with
    | some d => isSame v d
    | none => v.isNull

/-! ## Writing -/

/-- The entries of a state that differ from the defaults. -/
def significant (s : State) : Entries :=
  (s.entries Field.key).filter fun (key, v) => !isDefault key v

/-- The fragment of a text. -/
def ofPayload (payload : String) : String :=
  String.ofList (Bytes.dropPadding (Bytes.encode .address (Bytes.ofText payload)))

/-- The fragment of a state, empty if every field has its default. -/
def encode (s : State) : String :=
  let es := significant s
  if es.isEmpty then "" else ofPayload (Value.compact .interchange (.object es))

/-- The fragment of a state that can be written down: no number has too many digits. -/
def serialize (s : State) : Except Failure String :=
  if s.hasPrintableOffsets && (Value.object (significant s)).isPrintable then .ok (encode s)
  else .error (.value .tooManyDigits)

/-- The fragment of a state for sharing. -/
def share (s : State) : String := encode s.withoutVisualCrop

/-! ## Reading -/

/-- The entries that a fragment writes. -/
def payload? (fragment : String) : Option Entries :=
  let trimmed := Text.trimBy Text.isBlank fragment.toList
  if trimmed.isEmpty then none
  else
    -- The mark in front of a fragment may come along.
    let cs := trimmed.dropWhile (· = '#')
    if !Bytes.isAscii cs then none
    else do
      let bytes ← Bytes.decode? (Bytes.padToGroups cs)
      let text ← Bytes.text? bytes
      match Value.parse text with
      | .ok (.object es) => some es
      | _ => none

/-- The state that a fragment writes, after `issued` ids. Entries that are no valid state stand
for none; a value that no check applies to is a failure. -/
def decode (fragment : String) (issued : Nat) : Except Failure (Option State) × Nat :=
  match payload? fragment with
  | none => (.ok none, issued)
  | some es =>
    match (State.ofEntries es).run issued with
    | (.ok s, n) => (.ok (some s), n)
    | (.error (.invalid _), n) => (.ok none, n)
    | (.error f, n) => (.error f, n)

/-- The state that a shared fragment writes. -/
def open? (fragment : String) (issued : Nat) : Except Failure (Option State) × Nat :=
  match decode fragment issued with
  | (.ok s, n) => (.ok (s.map State.withoutVisualCrop), n)
  | (.error f, n) => (.error f, n)

end Retouch.Fragment
