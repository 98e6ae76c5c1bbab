/-
  Base64, written strictly and read leniently.

  Three bytes become four symbols. Writing pads the last group with `=`; what travels in a path or
  a fragment drops the padding. Reading takes both alphabets, skips what belongs to neither, and
  stops at a padding that completes a group. Main fact: `encode` writes one group of four for each
  begun group of three bytes (`length_encode`).
-/

namespace Retouch.Bytes

/-! ## Symbols -/

/-- The alphabet of a text: with `+` and `/`, or with `-` and `_` for use in addresses. -/
inductive Alphabet where
  | standard | address
  deriving DecidableEq, Repr

/-- The symbol for a value below 64. -/
def Alphabet.symbol (a : Alphabet) (n : Nat) : Char :=
  if n < 26 then Char.ofNat ('A'.toNat + n)
  else if n < 52 then Char.ofNat ('a'.toNat + (n - 26))
  else if n < 62 then Char.ofNat ('0'.toNat + (n - 52))
  else
    match a with
    | .standard => if n = 62 then '+' else '/'
    | .address => if n = 62 then '-' else '_'

/-- The value of a symbol of either alphabet. -/
def symbolValue? (c : Char) : Option Nat :=
  if 'A' ≤ c ∧ c ≤ 'Z' then some (c.toNat - 'A'.toNat)
  else if 'a' ≤ c ∧ c ≤ 'z' then some (c.toNat - 'a'.toNat + 26)
  else if '0' ≤ c ∧ c ≤ '9' then some (c.toNat - '0'.toNat + 52)
  else if c = '+' ∨ c = '-' then some 62
  else if c = '/' ∨ c = '_' then some 63
  else none

theorem symbolValue?_symbol (a : Alphabet) :
    (List.range 64).map (fun n => symbolValue? (a.symbol n)) = (List.range 64).map some := by
  cases a <;> decide

/-! ## Writing -/

/-- The symbols of a sequence of bytes, padded to whole groups. -/
def encode (a : Alphabet) : List UInt8 → List Char
  | [] => []
  | [x] =>
    [a.symbol (x.toNat / 4), a.symbol (x.toNat % 4 * 16), '=', '=']
  | [x, y] =>
    [a.symbol (x.toNat / 4), a.symbol (x.toNat % 4 * 16 + y.toNat / 16),
      a.symbol (y.toNat % 16 * 4), '=']
  | x :: y :: z :: r =>
    a.symbol (x.toNat / 4) :: a.symbol (x.toNat % 4 * 16 + y.toNat / 16) ::
      a.symbol (y.toNat % 16 * 4 + z.toNat / 64) :: a.symbol (z.toNat % 64) :: encode a r

/-- The text of a sequence of bytes. -/
def encodeText (a : Alphabet) (bytes : List UInt8) : String :=
  String.ofList (encode a bytes)

/-- Drops the padding at the end. -/
def dropPadding (cs : List Char) : List Char :=
  (cs.reverse.dropWhile (· = '=')).reverse

/-- Appends padding up to a multiple of four. -/
def padToGroups (cs : List Char) : List Char :=
  cs ++ List.replicate ((4 - cs.length % 4) % 4) '='

/-! ## Reading -/

/-- Reads symbols from a place within a group: `place` symbols of the group were read, `left` are
the bits not yet used, `pads` the padding signs since the last symbol. -/
def decodeFrom (place left pads : Nat) : List Char → Option (List UInt8)
  | [] => if place = 0 then some [] else none
  | c :: r =>
    if c = '=' then
      -- A padding sign counts only where a group can end, and is skipped elsewhere.
      if 2 ≤ place then
        if 4 ≤ place + pads + 1 then some [] else decodeFrom place left (pads + 1) r
      else decodeFrom place left pads r
    else
      match symbolValue? c with
      | none => decodeFrom place left pads r
      | some n =>
        match place with
        | 0 => decodeFrom 1 n 0 r
        | 1 => (decodeFrom 2 (n % 16) 0 r).map (UInt8.ofNat (left * 4 + n / 16) :: ·)
        | 2 => (decodeFrom 3 (n % 4) 0 r).map (UInt8.ofNat (left * 16 + n / 4) :: ·)
        | _ => (decodeFrom 0 0 0 r).map (UInt8.ofNat (left * 64 + n) :: ·)

/-- The bytes that a text writes, unless a group is left incomplete. -/
def decode? (cs : List Char) : Option (List UInt8) :=
  decodeFrom 0 0 0 cs

/-! ## Laws -/

theorem length_encode (a : Alphabet) (bytes : List UInt8) :
    (encode a bytes).length = 4 * ((bytes.length + 2) / 3) := by
  fun_induction encode a bytes with
  | case1 => rfl
  | case2 => simp
  | case3 => simp
  | case4 x y z r ih =>
    simp only [List.length_cons, ih]
    omega

example : decode? "aGk=".toList = some [104, 105] := by decide

end Retouch.Bytes
