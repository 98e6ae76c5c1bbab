/-
  Image paths inside request paths.

  An image path goes verbatim into a request path unless it holds a character with a meaning
  there or begins like one of the directives; then it is written in base64 behind `b64:`.
-/
import Retouch.Bytes.Base64
import Retouch.Bytes.Utf8
import Retouch.Failure

namespace Retouch.ImagePath

/-- What stands in front of an escaped path. -/
def escapeWord : String := "b64:"

/-- Characters with a meaning in a request path or in the arguments of a filter. -/
def unsafeChars : List Char := [' ', '?', '#', '&', '(', ')', ',']

/-- Beginnings that would be taken for a directive. -/
def reservedWords : List String :=
  ["unsafe/", "meta/", "params/", "trim/", "fit-in/", "full-fit-in/", "adaptive-fit-in/",
    "stretch/", "smart/", "filters:", "b64:"]

/-- Whether a text begins with a word. -/
def startsWith (word text : String) : Bool :=
  word.toList.isPrefixOf text.toList

/-- Whether an image path has to be escaped. -/
def needsEscape (path : String) : Bool :=
  path.toList.any unsafeChars.contains || reservedWords.any (startsWith · path)

/-- An image path as it stands in a request path. -/
def encode (path : String) : String :=
  if needsEscape path then
    escapeWord ++
      String.ofList (Bytes.dropPadding (Bytes.encode .address (Bytes.ofText path)))
  else path

/-- The text that base64 symbols write; symbols and bytes must be well formed. -/
def decodeSymbols (cs : List Char) : Except Failure String :=
  if !Bytes.isAscii cs then .error .notEncodable
  else
    match Bytes.decode? (Bytes.padToGroups cs) with
    | none => .error .base64
    | some bytes =>
      match Bytes.text? bytes with
      | none => .error .notUtf8
      | some s => .ok s

/-- The image path that a segment of a request path stands for. -/
def decode (segment : String) : Except Failure String :=
  if startsWith escapeWord segment then
    decodeSymbols (segment.toList.drop escapeWord.toList.length)
  else .ok segment

end Retouch.ImagePath
