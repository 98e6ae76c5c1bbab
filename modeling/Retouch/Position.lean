/-
  Where a layer stands on one axis of its canvas.

  A coordinate counts pixels from the near edge, or from the far edge when it is negative. A layer
  can also be aligned to a side, `outside` pixels beyond it, or be centered. Written down a
  position is a number or a word such as `center`, `left` or `right-20`; read, a word may also use
  the first letter of a side and any digits. Main facts: what was written is read back
  (`read_write_centered`, `read_write_int`), and shifting moves coordinates only
  (`shift_aligned`, `shift_centered`).
-/
import Retouch.Failure
import Retouch.Number.Reading
import Retouch.Text.Blank
import Retouch.Text.DecimalDigit

namespace Retouch

/-- A side of a canvas. -/
inductive Side where
  | left | right | top | bottom
  deriving DecidableEq, Repr

/-- Whether the side is the far one of its axis. -/
def Side.isFar : Side → Bool
  | .right | .bottom => true
  | .left | .top => false

/-- The name of a side. -/
def Side.name : Side → String
  | .left => "left"
  | .right => "right"
  | .top => "top"
  | .bottom => "bottom"

/-- The side with a name. -/
def Side.ofName? (name : String) : Option Side :=
  [Side.left, .right, .top, .bottom].find? (·.name = name)

/-- A position on one axis. -/
inductive Position where
  /-- A coordinate in pixels, negative when it counts from the far edge. -/
  | absolute (px : Number)
  /-- Aligned to a side and pushed `outside` pixels beyond it. -/
  | aligned (side : Side) (outside : Nat)
  | centered
  deriving DecidableEq

namespace Position

instance : Inhabited Position := ⟨.centered⟩

/-- The word for the middle. -/
def centerName : String := "center"

/-- Whether the position is a coordinate that counts from the far edge. -/
def countsFromFar : Position → Bool
  | .absolute px => px.isNegative
  | _ => false

/-- Alignment to an edge by name; `center` takes no offset and no offset is negative. -/
def align? (edge : String) (offset : Int) : Except Failure Position :=
  match Side.ofName? edge with
  | some side =>
    if offset < 0 then .error (.position (.negativeOffset offset))
    else .ok (.aligned side offset.toNat)
  | none =>
    if edge = centerName then
      if offset = 0 then .ok .centered else .error (.position .centerWithOffset)
    else .error (.value .unknownChoice)

/-! ## Writing -/

/-- The written form: a number, or the word with its offset unless that is zero. -/
def write : Position → Value
  | .absolute px => .ofNumber px.normalize
  | .aligned side 0 => .text side.name
  | .aligned side outside => .text (side.name ++ "-" ++ Number.natText outside)
  | .centered => .text centerName

/-- Whether an offset does not have too many digits for a word. -/
def isPrintable : Position → Bool
  | .aligned _ outside => (Number.natText outside).length ≤ Number.digitLimit
  | _ => true

/-- The written form as plain text. -/
def text (p : Position) : String := p.write.plainText

/-! ## Reading -/

/-- The words for the edges, long forms before the letters. -/
def edgeWords : List (String × String) :=
  [("left", "left"), ("right", "right"), ("top", "top"), ("bottom", "bottom"),
    ("center", "center"), ("l", "left"), ("r", "right"), ("t", "top"), ("b", "bottom")]

/-- The number that characters write: an optional minus sign, digits of any script, and
optionally a point with more digits. -/
def numberOfChars? (cs : List Char) : Option Float := do
  let (negative, r) :=
    match cs with
    | '-' :: r => (true, r)
    | r => (false, r)
  let whole := r.takeWhile Text.isDecimalDigit
  let rest := r.dropWhile Text.isDecimalDigit
  let places ←
    match rest with
    | [] => some []
    | '.' :: r => if r.isEmpty || !r.all Text.isDecimalDigit then none else some r
    | _ => none
  if whole.isEmpty then none
  let digits ← Text.digitsValue? (whole ++ places)
  return Number.signedDouble negative (Number.decimalDouble ⟨digits, -(places.length : Int)⟩)

/-- The edge and the digits of the offset that characters name, if they do. -/
def edgeOfChars? (cs : List Char) : Option (String × List Char) :=
  let word := String.ofList (cs.takeWhile (· ≠ '-'))
  match edgeWords.lookup word, cs.dropWhile (· ≠ '-') with
  | some edge, [] => some (edge, [])
  | some edge, '-' :: digits =>
    if digits.isEmpty || !digits.all Text.isDecimalDigit then none else some (edge, digits)
  | _, _ => none

/-- The position that a text names. -/
def ofText (s : String) : Except Failure Position :=
  let cs := (Text.trimBy Text.isBlank s.toList).map Char.toLower
  match numberOfChars? cs with
  | some x => .ok (.absolute (Number.float x).normalize)
  | none =>
    match edgeOfChars? cs with
    | none => .error (.position (.unreadable (.text s)))
    | some (edge, digits) =>
      if Number.digitLimit < digits.length then .error (.value .tooManyDigits)
      else align? edge ((Text.digitsValue? digits).getD 0)

/-- The position that a value names. -/
def read : Value → Except Failure Position
  | .int n => .ok (.absolute (.int n))
  | .float x => .ok (.absolute (Number.float x).normalize)
  | .text s => ofText s
  | v => .error (.position (.unreadable v))

/-- Moves a coordinate; an alignment stays. -/
def shift (p : Position) (delta : Number) : Except Failure Position :=
  match p with
  | .absolute px => do return .absolute (← px.add delta).normalize
  | p => .ok p

/-! ## Laws -/

theorem read_write_centered : read (write .centered) = .ok .centered := by
  rfl

theorem read_write_int (n : Int) : read (write (.absolute (.int n))) = .ok (.absolute (.int n)) :=
  rfl

theorem shift_aligned (side : Side) (outside : Nat) (delta : Number) :
    shift (.aligned side outside) delta = .ok (.aligned side outside) := rfl

theorem shift_centered (delta : Number) : shift .centered delta = .ok .centered := rfl

end Position

end Retouch
