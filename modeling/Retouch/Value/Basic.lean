/-
  Values as documents hold them.

  A value is null, a truth value, a whole number, a double, a text, a list or an object. Objects
  keep their entries in order and hold each key once. Main facts: what was put is found, and
  putting one key leaves the others alone (`lookup_put_self`, `lookup_put_of_ne`).
-/
import Retouch.Number.Basic

namespace Retouch

/-- A value of a document. -/
inductive Value where
  | null
  | bool (b : Bool)
  | int (n : Int)
  | float (x : Float)
  | text (s : String)
  /-- A text with a surrogate that stands alone, by its code points. -/
  | rawText (codes : List Nat)
  | list (items : List Value)
  | object (entries : List (String × Value))

/-- The entries of an object, in order. -/
abbrev Entries := List (String × Value)

namespace Value

instance : Inhabited Value := ⟨.null⟩

/-- Whether a value is null. -/
def isNull : Value → Bool
  | .null => true
  | _ => false

/-- Whether a value counts as something: not null, false, zero or empty. -/
def isSomething : Value → Bool
  | .null => false
  | .bool b => b
  | .int n => n != 0
  | .float x => x != 0.0
  | .text s => !s.isEmpty
  | .rawText codes => !codes.isEmpty
  | .list vs => !vs.isEmpty
  | .object es => !es.isEmpty

/-- A number as a value. -/
def ofNumber : Number → Value
  | .int n => .int n
  | .float x => .float x

/-- A list of texts as a value. -/
def ofTexts (ss : List String) : Value :=
  .list (ss.map .text)

/-- A value, or null. -/
def ofOption (v : Option Value) : Value :=
  v.getD .null

end Value

namespace Entries

/-- The value at a key. -/
def lookup (key : String) : Entries → Option Value
  | [] => none
  | (k, v) :: es => if k = key then some v else lookup key es

/-- Whether there is an entry at a key. -/
def has (key : String) (es : Entries) : Bool :=
  (lookup key es).isSome

/-- Sets the value at a key, in place if the key is there and at the end otherwise. -/
def put (key : String) (v : Value) : Entries → Entries
  | [] => [(key, v)]
  | (k, w) :: es => if k = key then (k, v) :: es else (k, w) :: put key v es

/-- Removes the entry at a key. -/
def erase (key : String) : Entries → Entries
  | [] => []
  | (k, w) :: es => if k = key then es else (k, w) :: erase key es

/-- Collects pairs into entries; a later pair replaces the value of an earlier one. -/
def ofPairs (pairs : List (String × Value)) : Entries :=
  pairs.foldl (fun es (k, v) => put k v es) []

/-- The keys in order. -/
def keys (es : Entries) : List String :=
  es.map (·.1)

@[simp] theorem lookup_put_self (key : String) (v : Value) (es : Entries) :
    lookup key (put key v es) = some v := by
  induction es with
  | nil => simp [put, lookup]
  | cons e es ih =>
    obtain ⟨k, w⟩ := e
    by_cases h : k = key <;> simp [put, lookup, h, ih]

theorem lookup_put_of_ne {key other : String} (h : other ≠ key) (v : Value) (es : Entries) :
    lookup other (put key v es) = lookup other es := by
  induction es with
  | nil => simp [put, lookup, Ne.symm h]
  | cons e es ih =>
    obtain ⟨k, w⟩ := e
    by_cases hk : k = key
    · subst hk; simp [put, lookup, Ne.symm h]
    · simp [put, lookup, hk, ih]

end Entries

end Retouch
