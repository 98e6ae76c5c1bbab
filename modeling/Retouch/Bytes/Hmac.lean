/-
  Message authentication with a shared secret.

  The key fills a block, its digest if it is longer than one; the message is digested behind the
  block mixed with one constant, and the result behind the block mixed with another.
-/
import Retouch.Bytes.Digest

namespace Retouch.Bytes

/-- A digest that messages can be authenticated with. -/
inductive Algorithm where
  | sha1 | sha256 | sha512
  deriving DecidableEq, Repr

namespace Algorithm

/-- The algorithm with a name in lower case. -/
def ofName? (name : String) : Option Algorithm :=
  if name = "sha1" then some .sha1
  else if name = "sha256" then some .sha256
  else if name = "sha512" then some .sha512
  else none

/-- The number of bytes in a block. -/
def block : Algorithm → Nat
  | .sha1 | .sha256 => 64
  | .sha512 => 128

/-- The digest of a message. -/
def digest : Algorithm → List UInt8 → List UInt8
  | .sha1 => Sha1.digest
  | .sha256 => Bytes.sha256.digest
  | .sha512 => Bytes.sha512.digest

end Algorithm

/-- The code that authenticates a message under a key. -/
def hmac (algorithm : Algorithm) (key message : List UInt8) : List UInt8 :=
  let short := if algorithm.block < key.length then algorithm.digest key else key
  let full := short ++ List.replicate (algorithm.block - short.length) 0
  let inner := algorithm.digest (full.map (· ^^^ 0x36) ++ message)
  algorithm.digest (full.map (· ^^^ 0x5c) ++ inner)

end Retouch.Bytes
