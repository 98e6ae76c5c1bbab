/-
  The bytes of texts.
-/

namespace Retouch.Bytes

/-- The UTF-8 bytes of a text. -/
def ofText (s : String) : List UInt8 := s.toUTF8.toList

/-- The text with these UTF-8 bytes, if they are well formed. -/
def text? (bytes : List UInt8) : Option String :=
  String.fromUTF8? ⟨bytes.toArray⟩

/-- Whether all characters are ASCII. -/
def isAscii (cs : List Char) : Bool :=
  cs.all fun c => c.toNat < 128

end Retouch.Bytes
