/-
  Sessions on a sample.

  A sample has no content; its previews show a path that is given, or one that is numbered by how
  many were asked for.
-/
import Retouch.Session.Run

namespace Retouch

/-- Something with previews and nothing else. -/
structure Sample where
  /-- The path of all its previews. -/
  path : Option String
  listening : Bool
  /-- How many previews were asked for. -/
  asked : Nat := 0

namespace Sample

/-- The image of a sample. -/
def image : String := "img"

/-- What the next preview shows. -/
def next (s : Sample) : Ask × Sample :=
  let n := s.asked + 1
  (⟨image, s.path.getD ("path-" ++ Number.natText n)⟩, { s with asked := n })

instance : Subject Sample where
  listening s := s.listening
  ask s := (.ok s.next.1, s.next.2)
  pauseOver s := (s, [])
  announced _ := .ok none

/-- A session on a sample, previews to follow a pause of some milliseconds. -/
def session (s : Sample) (generator : Session.Generator) (byHand : Bool) (pauseMs : Float) :
    Session Sample :=
  { subject := s, generator, byHand
    previewWindow := { length := pauseMs / 1000.0 }
    historyWindow := { length := 0.0 } }

end Sample

end Retouch
