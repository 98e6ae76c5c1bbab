/-
  Request paths with a signature, and the addresses made of them.

  A signature authenticates a path under a shared secret. An address is a base, the signature or
  the word `unsafe`, and the path, with slashes between them.
-/
import Retouch.Bytes.Base64
import Retouch.Bytes.Hmac
import Retouch.Bytes.Utf8
import Retouch.Settings

namespace Retouch

/-- What signs paths. -/
structure Signer where
  secret : String
  algorithm : Bytes.Algorithm
  /-- To how many characters signatures are cut, zero or less for not at all. -/
  truncate : Int

namespace Signer

/-- A signer with a secret and an algorithm by name. -/
def make (secret algorithm : String) (truncate : Int) : Except Failure Signer :=
  if secret.isEmpty then .error (.signer .noSecret)
  else
    match Bytes.Algorithm.ofName? (Convert.lowerAscii algorithm) with
    | none => .error (.signer (.unknownAlgorithm algorithm))
    | some a => .ok ⟨secret, a, truncate⟩

/-- The signature of a path. -/
def sign (s : Signer) (path : String) : String :=
  let full := Bytes.encode .address
    (Bytes.hmac s.algorithm (Bytes.ofText s.secret) (Bytes.ofText path))
  String.ofList (if 0 < s.truncate then full.take s.truncate.toNat else full)

end Signer

/-- What makes addresses of paths: a base without slash at the end, and a signer unless paths
are left unsigned. -/
structure Addressing where
  base : String
  signer : Option Signer

namespace Addressing

/-- What may be given in place of the settings. -/
structure Choices where
  base : Option String := none
  secret : Option String := none
  unsigned : Option Bool := none
  algorithm : Option String := none
  truncate : Option Int := none

/-- Takes what is given, else the settings. Without a secret paths are left unsigned, unless it
is asked for signatures. -/
def make (c : Choices) (settings : Settings) : Except Failure Addressing :=
  let base := String.ofList
    (((c.base.getD settings.baseUrl).toList.reverse.dropWhile (· = '/')).reverse)
  let secret := c.secret.getD settings.secret
  if c.unsigned.getD (settings.unsigned || secret.isEmpty) then .ok ⟨base, none⟩
  else do
    let signer ← Signer.make secret (c.algorithm.getD settings.signerType)
      (c.truncate.getD settings.signerTruncate)
    return ⟨base, some signer⟩

/-- A path behind its signature. -/
def sign (a : Addressing) (path : String) : String :=
  match a.signer with
  | none => "unsafe/" ++ path
  | some s => s.sign path ++ "/" ++ path

/-- The address of a path. -/
def url (a : Addressing) (path : String) : String := a.base ++ "/" ++ a.sign path

end Addressing

end Retouch
