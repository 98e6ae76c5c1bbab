/-
  How the pixels of a layer combine with those below it.
-/
import Retouch.Check

namespace Retouch

/-- A blend mode. -/
inductive Blend where
  | normal | multiply | screen | overlay | softLight | hardLight | colorBurn | colorDodge
  | darken | lighten | add | difference | exclusion | mask | maskOut
  deriving DecidableEq, Repr, Inhabited

namespace Blend

/-- All blend modes. -/
def all : List Blend :=
  [.normal, .multiply, .screen, .overlay, .softLight, .hardLight, .colorBurn, .colorDodge,
    .darken, .lighten, .add, .difference, .exclusion, .mask, .maskOut]

/-- The name of a blend mode. -/
def name : Blend → String
  | .normal => "normal"
  | .multiply => "multiply"
  | .screen => "screen"
  | .overlay => "overlay"
  | .softLight => "soft-light"
  | .hardLight => "hard-light"
  | .colorBurn => "color-burn"
  | .colorDodge => "color-dodge"
  | .darken => "darken"
  | .lighten => "lighten"
  | .add => "add"
  | .difference => "difference"
  | .exclusion => "exclusion"
  | .mask => "mask"
  | .maskOut => "mask-out"

/-- The blend mode with a name. -/
def ofName? (name : String) : Option Blend :=
  all.find? (·.name = name)

theorem ofName?_name (b : Blend) : ofName? b.name = some b := by
  cases b <;> rfl

/-- Reads a blend mode by name. -/
def read : Value → Check Blend
  | .text s =>
    match ofName? s with
    | some b => return b
    | none => Check.note .notListed .normal
  | _ => Check.note .notListed .normal

end Blend

end Retouch
