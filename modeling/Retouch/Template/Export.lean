/-
  States made into templates.

  The image that a state is for and the mark of editing its crop by hand do not go into a
  template. An adaptive template has no wanted size; a predefined one records the size it is for.
-/
import Retouch.Output
import Retouch.Settings
import Retouch.Template.Basic

namespace Retouch

/-- The wanted size of settings, if both extents are set and not zero. -/
def Params.wantedSize (p : Params) : Option Size :=
  match wanted p.width, wanted p.height with
  | some width, some height => some ⟨width, height⟩
  | _, _ => none

/-- The settings without a wanted size. -/
def Params.withoutSize (p : Params) : Params :=
  { p with width := none, height := none }

/-- The state as it goes into a template. -/
def State.portable (s : State) : State := s.withoutIdentity.withoutVisualCrop

/-- The template of a state. -/
def Template.ofState (s : State) (name : Option String) (mode : SizeMode)
    (description : Option String) (size : Option Size) (settings : Settings) : Template :=
  let s := s.portable
  { version := settings.templateVersion
    name, description, mode
    size :=
      match mode with
      | .adaptive => none
      | .predefined => size <|> s.params.wantedSize
    transformations :=
      match mode with
      | .adaptive => { s with params := s.params.withoutSize }
      | .predefined => s
    createdAt := Template.fixedDate }

end Retouch
