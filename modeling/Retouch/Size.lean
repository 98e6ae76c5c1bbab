/-
  Pixel sizes.
-/
import Retouch.Convert

namespace Retouch

/-- The width and height of an image in pixels. -/
structure Size where
  width : Int
  height : Int
  deriving DecidableEq, Repr, Inhabited

namespace Size

/-- The size with its axes exchanged. -/
def swapped (s : Size) : Size := ⟨s.height, s.width⟩

/-- The entries of a size. -/
def write (s : Size) : Value :=
  .object [("width", .int s.width), ("height", .int s.height)]

/-- Reads a size; both axes are required. -/
def read : Value → Check Size
  | .object es => do
    let width ← Convert.required es "width" Convert.int
    let height ← Convert.required es "height" Convert.int
    return ⟨width, height⟩
  | _ => Check.note .notObject default

end Size

end Retouch
