/-
  Values read from their text.

  The grammar is that of data interchange with three more words, `NaN`, `Infinity` and
  `-Infinity`. A number without fraction and exponent is whole. A key that occurs again replaces
  the value of the earlier one. A surrogate that is not one of a pair makes the text a `rawText`.
  Every reader takes the characters from where it stands and returns the rest, or it stops; what is
  left of the text there says where that is (`Stop`), and `parse` makes a `Fault` of it.

  One thing is idealised: values may be nested to any depth. A reader on a machine has a limit,
  which depends on the stack that the caller leaves to it and so is no property of the text.
-/
import Retouch.Value.Basic
import Retouch.Value.Fault

namespace Retouch.Value

/-! ## Stops -/

/-- Why and where a reader stops. -/
inductive Stop where
  /-- The grammar is broken in front of the rest of the text. -/
  | broken (cause : Breach) (rest : List Char)
  | tooManyDigits (count : Nat)

/-- What a reader comes to: a result and the rest of the text, or a stop. -/
abbrev Reading (α : Type) := Except Stop (α × List Char)

/-- The fault in a text that a reader has stopped in. -/
def Stop.fault (text : List Char) : Stop → Fault
  | .broken cause rest => .broken cause (.behind (text.take (text.length - rest.length)))
  | .tooManyDigits count => .tooManyDigits count

/-! ## Characters -/

/-- The four characters that may stand between tokens. -/
def isGap (c : Char) : Bool :=
  c = ' ' || c = '\t' || c = '\n' || c = '\r'

/-- The text behind the gap at the front. -/
def skipGap (cs : List Char) : List Char :=
  cs.dropWhile isGap

/-- The rest behind a given word at the front. -/
def skipWord (word cs : List Char) : Option (List Char) :=
  match word, cs with
  | [], cs => some cs
  | w :: ws, c :: cs => if w = c then skipWord ws cs else none
  | _ :: _, [] => none

/-- The value of a hexadecimal digit. -/
def hexDigit? (c : Char) : Option Nat :=
  if '0' ≤ c ∧ c ≤ '9' then some (c.toNat - '0'.toNat)
  else if 'a' ≤ c ∧ c ≤ 'f' then some (c.toNat - 'a'.toNat + 10)
  else if 'A' ≤ c ∧ c ≤ 'F' then some (c.toNat - 'A'.toNat + 10)
  else none

/-- The value of four hexadecimal digits. -/
def hexFour? (a b c d : Char) : Option Nat := do
  return 4096 * (← hexDigit? a) + 256 * (← hexDigit? b) + 16 * (← hexDigit? c) + (← hexDigit? d)

/-- The code point that an escape letter stands for. -/
def escaped? (c : Char) : Option Nat :=
  if c = '"' ∨ c = '\\' ∨ c = '/' then some c.toNat
  else if c = 'b' then some 8
  else if c = 'f' then some 12
  else if c = 'n' then some 10
  else if c = 'r' then some 13
  else if c = 't' then some 9
  else none

/-! ## Texts -/

/-- The code units up to the closing quote, and the rest behind it. The text from the opening quote
on goes along, for a text that has no end. -/
def readCodes (opened : List Char) : List Char → Reading (List Nat)
  | '"' :: r => .ok ([], r)
  | '\\' :: 'u' :: a :: b :: c :: d :: r =>
    match hexFour? a b c d with
    | some n =>
      -- The digits may not be the last of the text.
      if r.isEmpty then .error (.broken .codeEscape ('u' :: a :: b :: c :: d :: r))
      else (readCodes opened r).map fun (codes, rest) => (n :: codes, rest)
    | none => .error (.broken .codeEscape ('u' :: a :: b :: c :: d :: r))
  | '\\' :: e :: r =>
    match escaped? e with
    | some n => (readCodes opened r).map fun (codes, rest) => (n :: codes, rest)
    | none =>
      -- A `u` without four characters behind it is here as well.
      if e = 'u' then .error (.broken .codeEscape (e :: r))
      else .error (.broken .escape ('\\' :: e :: r))
  | c :: r =>
    if c = '\\' then .error (.broken .openText opened)
    else if c.toNat < 32 then .error (.broken .control (c :: r))
    else (readCodes opened r).map fun (codes, rest) => (c.toNat :: codes, rest)
  | [] => .error (.broken .openText opened)

/-- Whether the code unit is the first of a surrogate pair. -/
def isHighSurrogate (n : Nat) : Bool := 0xd800 ≤ n && n < 0xdc00

/-- Whether the code unit is the second of a surrogate pair. -/
def isLowSurrogate (n : Nat) : Bool := 0xdc00 ≤ n && n < 0xe000

/-- Replaces each surrogate pair by the code point it stands for. -/
def joinPairs : List Nat → List Nat
  | h :: l :: r =>
    if isHighSurrogate h && isLowSurrogate l then
      (0x10000 + (h - 0xd800) * 0x400 + (l - 0xdc00)) :: joinPairs r
    else h :: joinPairs (l :: r)
  | r => r

/-- Whether the code point is a character. -/
def isScalar (n : Nat) : Bool := n < 0xd800 || (0xe000 ≤ n && n < 0x110000)

/-- The text of code points, if all are characters. -/
def textOfCodes? (codes : List Nat) : Option String :=
  if codes.all isScalar then some (String.ofList (codes.map Char.ofNat)) else none

/-- The value of a literal with these code units. -/
def ofCodes (codes : List Nat) : Value :=
  let joined := joinPairs codes
  match textOfCodes? joined with
  | some s => .text s
  | none => .rawText joined

/-- The key of a literal with these code units; a lone surrogate becomes U+FFFD. -/
def keyOfCodes (codes : List Nat) : String :=
  String.ofList ((joinPairs codes).map fun n =>
    if isScalar n then Char.ofNat n else Char.ofNat 0xfffd)

/-! ## Numbers -/

/-- The fraction at the front: a point and at least one digit. -/
def takeFraction (cs : List Char) : Option (List Char × List Char) :=
  match cs with
  | '.' :: r =>
    let ds := r.takeWhile Number.isDigit
    if ds.isEmpty then none else some (ds, r.dropWhile Number.isDigit)
  | _ => none

/-- The digits of the whole part: a zero alone, or digits that begin with another. -/
def takeWhole (cs : List Char) : Option (List Char × List Char) :=
  match cs with
  | '0' :: r => some (['0'], r)
  | _ =>
    let ds := cs.takeWhile Number.isDigit
    if ds.isEmpty then none else some (ds, cs.dropWhile Number.isDigit)

/-- The number behind an optional minus sign that was read already. -/
def readUnsigned (negative : Bool) (cs : List Char) : Reading Value :=
  match takeWhole cs with
  -- The sign is no value either.
  | none => .error (.broken .value (if negative then '-' :: cs else cs))
  | some (whole, r) =>
    -- A point without digits, or an exponent without, is left in the rest.
    let fraction := takeFraction r
    let r := (fraction.map (·.2)).getD r
    let exponent := Number.takeExponent? r
    let rest := (exponent.map (·.2)).getD r
    if fraction.isNone && exponent.isNone then
      if Number.digitLimit < whole.length then .error (.tooManyDigits whole.length)
      else .ok (.int (Number.signed negative (Number.digitsNat whole)), rest)
    else
      let places := (fraction.map (·.1)).getD []
      let scale := (exponent.map (·.1)).getD 0 - (places.length : Int)
      .ok (.float (Number.signedDouble negative
        (Number.decimalDouble ⟨Number.digitsNat (whole ++ places), scale⟩)), rest)

/-- A value whose word is at the front. -/
def readWord (word : String) (v : Value) (cs : List Char) : Reading Value :=
  match skipWord word.toList cs with
  | some rest => .ok (v, rest)
  | none => .error (.broken .value cs)

/-- The word, the special double or the number at the front. -/
def readAtom (cs : List Char) : Reading Value :=
  match cs with
  | 'n' :: _ => readWord "null" .null cs
  | 't' :: _ => readWord "true" (.bool true) cs
  | 'f' :: _ => readWord "false" (.bool false) cs
  | 'N' :: _ => readWord "NaN" (.float (0.0 / 0.0)) cs
  | 'I' :: _ => readWord "Infinity" (.float (1.0 / 0.0)) cs
  -- The sign belongs to the word; there is no negative `NaN`.
  | '-' :: 'I' :: _ => readWord "-Infinity" (.float (-1.0 / 0.0)) cs
  | '-' :: r => readUnsigned true r
  | _ => readUnsigned false cs

/-! ## Values -/

mutual

/-- The value at the front. -/
def readValue : (fuel : Nat) → List Char → Reading Value
  | 0, cs => .error (.broken .value cs)
  | _ + 1, '"' :: r => (readCodes ('"' :: r) r).map fun (codes, rest) => (ofCodes codes, rest)
  | fuel + 1, '[' :: r =>
    match skipGap r with
    | ']' :: rest => .ok (.list [], rest)
    | r => (readItems fuel r).map fun (items, rest) => (.list items, rest)
  | fuel + 1, '\x7b' :: r =>
    match skipGap r with
    | '\x7d' :: rest => .ok (.object [], rest)
    | r => (readPairs fuel r).map fun (pairs, rest) => (.object (Entries.ofPairs pairs), rest)
  | _ + 1, cs => readAtom cs

/-- The items up to the closing bracket. -/
def readItems : (fuel : Nat) → List Char → Reading (List Value)
  | 0, cs => .error (.broken .value cs)
  | fuel + 1, cs =>
    match readValue fuel cs with
    | .error stop => .error stop
    | .ok (v, r) =>
      match skipGap r with
      | ']' :: rest => .ok ([v], rest)
      | ',' :: r => (readItems fuel (skipGap r)).map fun (vs, rest) => (v :: vs, rest)
      | r => .error (.broken .comma r)

/-- The keys and values up to the closing brace. -/
def readPairs : (fuel : Nat) → List Char → Reading (List (String × Value))
  | 0, cs => .error (.broken .key cs)
  | fuel + 1, '"' :: r =>
    match readCodes ('"' :: r) r with
    | .error stop => .error stop
    | .ok (codes, r) =>
      match skipGap r with
      | ':' :: r =>
        match readValue fuel (skipGap r) with
        | .error stop => .error stop
        | .ok (v, r) =>
          match skipGap r with
          | '\x7d' :: rest => .ok ([(keyOfCodes codes, v)], rest)
          | ',' :: r =>
            (readPairs fuel (skipGap r)).map fun (es, rest) => ((keyOfCodes codes, v) :: es, rest)
          | r => .error (.broken .comma r)
      | r => .error (.broken .colon r)
  | _ + 1, cs => .error (.broken .key cs)

end

/-- The value that makes up a text; gaps may stand around it and nothing else. -/
def readAll (cs : List Char) : Except Stop Value :=
  if cs.head? = some '\uFEFF' then .error (.broken .orderMark cs)
  else
    -- Each level of nesting and each item takes a character at least, so the fuel lasts.
    match readValue (2 * cs.length + 2) (skipGap cs) with
    | .error stop => .error stop
    | .ok (v, rest) =>
      if (skipGap rest).isEmpty then .ok v else .error (.broken .more (skipGap rest))

/-- The value that a text writes, or why it writes none. -/
def parse (text : String) : Except Fault Value :=
  (readAll text.toList).mapError (Stop.fault text.toList)

end Retouch.Value
