/-
  Values compared by what they mean.

  Doubles are compared by value, so the two zeros are the same and so are any two doubles that are
  no number; objects are compared entry by entry in order. Main fact: every value means the same as
  itself (`same_refl`).

  One thing is idealised. Where doubles are things in memory, one that is no number equals only
  itself, and whether two places hold the same one is not to be seen from their values. Here any
  two are the same. Values without such doubles are compared alike in both ways.
-/
import Retouch.Value.Basic

namespace Retouch

mutual

/-- Whether two values mean the same. -/
def Value.same : Value → Value → Bool
  | .null, .null => true
  | .bool a, .bool b => a = b
  | .int m, .int n => m = n
  | .float x, .float y => Number.sameValue x y
  | .text s, .text t => s = t
  | .rawText cs, .rawText ds => cs = ds
  | .list vs, .list ws => sameItems vs ws
  | .object es, .object fs => sameEntries es fs
  | _, _ => false

/-- Whether two lists hold values that mean the same. -/
def sameItems : List Value → List Value → Bool
  | [], [] => true
  | v :: vs, w :: ws => v.same w && sameItems vs ws
  | _, _ => false

/-- Whether two objects hold values that mean the same under the same keys. -/
def sameEntries : List (String × Value) → List (String × Value) → Bool
  | [], [] => true
  | (k, v) :: es, (l, w) :: fs => k = l && v.same w && sameEntries es fs
  | _, _ => false

end

mutual

theorem Value.same_refl (v : Value) : v.same v = true := by
  cases v with
  | list vs => simpa [Value.same] using sameItems_refl vs
  | object es => simpa [Value.same] using sameEntries_refl es
  | _ => simp [Value.same, Number.sameValue]

theorem sameItems_refl (vs : List Value) : sameItems vs vs = true := by
  cases vs with
  | nil => simp [sameItems]
  | cons v vs => simp [sameItems, Value.same_refl v, sameItems_refl vs]

theorem sameEntries_refl (es : List (String × Value)) : sameEntries es es = true := by
  cases es with
  | nil => simp [sameEntries]
  | cons e es => simp [sameEntries, Value.same_refl e.2, sameEntries_refl es]

end

end Retouch
