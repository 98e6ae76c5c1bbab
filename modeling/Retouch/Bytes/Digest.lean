/-
  The digests SHA-1, SHA-256 and SHA-512.

  All three pad a message to whole blocks with a one bit, zeros and the length in bits, and fold
  the blocks into a short array of words. SHA-256 and SHA-512 differ only in the width of their
  words and in constants, so they share the shape of their rounds.
-/

namespace Retouch.Bytes

/-! ## Padding and blocks -/

/-- The big-endian bytes of a number. -/
def bigEndian (count n : Nat) : List UInt8 :=
  (List.range count).reverse.map fun i => UInt8.ofNat (n / Nat.pow 256 i % 256)

/-- The number with these big-endian bytes. -/
def ofBigEndian (bytes : List UInt8) : Nat :=
  bytes.foldl (fun n b => n * 256 + b.toNat) 0

/-- A message padded to blocks of `block` bytes, its length in the last `size` of them. -/
def padded (block size : Nat) (bytes : List UInt8) : List UInt8 :=
  -- The one bit fills a byte of its own, since messages are whole bytes.
  let used := (bytes.length + 1 + size) % block
  bytes ++ 0x80 :: List.replicate ((block - used) % block) 0 ++ bigEndian size (bytes.length * 8)

/-- Cuts a list into pieces of `size`; `fuel` bounds their number. -/
def pieces {α : Type} (size : Nat) : (fuel : Nat) → List α → List (List α)
  | 0, _ => []
  | fuel + 1, xs => if xs.isEmpty then [] else xs.take size :: pieces size fuel (xs.drop size)

/-- The words of `width` bytes in a block. -/
def words (width : Nat) (block : List UInt8) : List Nat :=
  (pieces width block.length block).map ofBigEndian

/-! ## SHA-1 -/

/-- A word turned left by `k` bits. -/
def turnLeft (x : UInt32) (k : UInt32) : UInt32 := (x <<< k) ||| (x >>> (32 - k))

/-- The five words of SHA-1. -/
structure Sha1 where
  a : UInt32
  b : UInt32
  c : UInt32
  d : UInt32
  e : UInt32

namespace Sha1

/-- The words before the first block. -/
def start : Sha1 := ⟨0x67452301, 0xefcdab89, 0x98badcfe, 0x10325476, 0xc3d2e1f0⟩

/-- The 80 words that a block of 16 words extends to. -/
def schedule (block : Array UInt32) : Array UInt32 :=
  (List.range 64).foldl (fun w i =>
    w.push (turnLeft (w[i + 13]! ^^^ w[i + 8]! ^^^ w[i + 2]! ^^^ w[i]!) 1)) block

/-- Round `i` with its word. -/
def round (s : Sha1) (i : Nat) (w : UInt32) : Sha1 :=
  let (f, k) : UInt32 × UInt32 :=
    if i < 20 then ((s.b &&& s.c) ||| ((~~~s.b) &&& s.d), 0x5a827999)
    else if i < 40 then (s.b ^^^ s.c ^^^ s.d, 0x6ed9eba1)
    else if i < 60 then ((s.b &&& s.c) ||| (s.b &&& s.d) ||| (s.c &&& s.d), 0x8f1bbcdc)
    else (s.b ^^^ s.c ^^^ s.d, 0xca62c1d6)
  ⟨turnLeft s.a 5 + f + s.e + k + w, s.a, turnLeft s.b 30, s.c, s.d⟩

/-- Takes in a block. -/
def absorb (s : Sha1) (block : List UInt8) : Sha1 :=
  let w := schedule ((words 4 block).map UInt32.ofNat).toArray
  let t := (List.range 80).foldl (fun t i => t.round i w[i]!) s
  ⟨s.a + t.a, s.b + t.b, s.c + t.c, s.d + t.d, s.e + t.e⟩

/-- The digest of a message. -/
def digest (bytes : List UInt8) : List UInt8 :=
  let message := padded 64 8 bytes
  let s := (pieces 64 message.length message).foldl absorb start
  [s.a, s.b, s.c, s.d, s.e].flatMap fun x => bigEndian 4 x.toNat

end Sha1

/-! ## SHA-256 and SHA-512 -/

/-- What tells SHA-256 and SHA-512 apart. -/
structure Sha2 (ω : Type) where
  /-- Bytes in a word. -/
  width : Nat
  rounds : Nat
  ofNat : Nat → ω
  toNat : ω → Nat
  start : Array ω
  constants : Array ω
  /-- The two mixings of the schedule and the two of a round. -/
  small0 : ω → ω
  small1 : ω → ω
  big0 : ω → ω
  big1 : ω → ω

namespace Sha2

variable {ω : Type} [Inhabited ω] [Add ω] [AndOp ω] [XorOp ω] [Complement ω]

/-- The words that a block of 16 words extends to. -/
def schedule (h : Sha2 ω) (block : Array ω) : Array ω :=
  (List.range (h.rounds - 16)).foldl (fun w i =>
    w.push (h.small1 w[i + 14]! + w[i + 9]! + h.small0 w[i + 1]! + w[i]!)) block

/-- Round `i` with its word on the eight working words. -/
def round (h : Sha2 ω) (i : Nat) (w : ω) (s : Array ω) : Array ω :=
  let a := s[0]!
  let b := s[1]!
  let c := s[2]!
  let e := s[4]!
  let f := s[5]!
  let g := s[6]!
  let choice := (e &&& f) ^^^ ((~~~e) &&& g)
  let majority := (a &&& b) ^^^ (a &&& c) ^^^ (b &&& c)
  let first := s[7]! + h.big1 e + choice + h.constants[i]! + w
  #[first + (h.big0 a + majority), a, b, c, s[3]! + first, e, f, g]

/-- Takes in a block. -/
def absorb (h : Sha2 ω) (s : Array ω) (block : List UInt8) : Array ω :=
  let w := h.schedule ((words h.width block).map h.ofNat).toArray
  let t := (List.range h.rounds).foldl (fun t i => h.round i w[i]! t) s
  (Array.range 8).map fun i => s[i]! + t[i]!

/-- The digest of a message. -/
def digest (h : Sha2 ω) (bytes : List UInt8) : List UInt8 :=
  let block := 16 * h.width
  let message := padded block (2 * h.width) bytes
  let s := (pieces block message.length message).foldl h.absorb h.start
  s.toList.flatMap fun x => bigEndian h.width (h.toNat x)

end Sha2

/-- A word turned right by `k` bits. -/
def turnRight32 (x : UInt32) (k : UInt32) : UInt32 := (x >>> k) ||| (x <<< (32 - k))

/-- A word turned right by `k` bits. -/
def turnRight64 (x : UInt64) (k : UInt64) : UInt64 := (x >>> k) ||| (x <<< (64 - k))

/-- SHA-256. -/
def sha256 : Sha2 UInt32 where
  width := 4
  rounds := 64
  ofNat := UInt32.ofNat
  toNat := UInt32.toNat
  start := #[0x6a09e667, 0xbb67ae85, 0x3c6ef372, 0xa54ff53a,
    0x510e527f, 0x9b05688c, 0x1f83d9ab, 0x5be0cd19]
  constants := #[0x428a2f98, 0x71374491, 0xb5c0fbcf, 0xe9b5dba5,
    0x3956c25b, 0x59f111f1, 0x923f82a4, 0xab1c5ed5,
    0xd807aa98, 0x12835b01, 0x243185be, 0x550c7dc3, 0x72be5d74, 0x80deb1fe, 0x9bdc06a7, 0xc19bf174,
    0xe49b69c1, 0xefbe4786, 0x0fc19dc6, 0x240ca1cc, 0x2de92c6f, 0x4a7484aa, 0x5cb0a9dc, 0x76f988da,
    0x983e5152, 0xa831c66d, 0xb00327c8, 0xbf597fc7, 0xc6e00bf3, 0xd5a79147, 0x06ca6351, 0x14292967,
    0x27b70a85, 0x2e1b2138, 0x4d2c6dfc, 0x53380d13, 0x650a7354, 0x766a0abb, 0x81c2c92e, 0x92722c85,
    0xa2bfe8a1, 0xa81a664b, 0xc24b8b70, 0xc76c51a3, 0xd192e819, 0xd6990624, 0xf40e3585, 0x106aa070,
    0x19a4c116, 0x1e376c08, 0x2748774c, 0x34b0bcb5, 0x391c0cb3, 0x4ed8aa4a, 0x5b9cca4f, 0x682e6ff3,
    0x748f82ee, 0x78a5636f, 0x84c87814, 0x8cc70208, 0x90befffa, 0xa4506ceb, 0xbef9a3f7, 0xc67178f2]
  small0 x := turnRight32 x 7 ^^^ turnRight32 x 18 ^^^ (x >>> 3)
  small1 x := turnRight32 x 17 ^^^ turnRight32 x 19 ^^^ (x >>> 10)
  big0 x := turnRight32 x 2 ^^^ turnRight32 x 13 ^^^ turnRight32 x 22
  big1 x := turnRight32 x 6 ^^^ turnRight32 x 11 ^^^ turnRight32 x 25

/-- SHA-512. -/
def sha512 : Sha2 UInt64 where
  width := 8
  rounds := 80
  ofNat := UInt64.ofNat
  toNat := UInt64.toNat
  start := #[0x6a09e667f3bcc908, 0xbb67ae8584caa73b, 0x3c6ef372fe94f82b, 0xa54ff53a5f1d36f1,
    0x510e527fade682d1, 0x9b05688c2b3e6c1f, 0x1f83d9abfb41bd6b, 0x5be0cd19137e2179]
  constants := #[0x428a2f98d728ae22, 0x7137449123ef65cd, 0xb5c0fbcfec4d3b2f, 0xe9b5dba58189dbbc,
    0x3956c25bf348b538, 0x59f111f1b605d019, 0x923f82a4af194f9b, 0xab1c5ed5da6d8118,
    0xd807aa98a3030242, 0x12835b0145706fbe, 0x243185be4ee4b28c, 0x550c7dc3d5ffb4e2,
    0x72be5d74f27b896f, 0x80deb1fe3b1696b1, 0x9bdc06a725c71235, 0xc19bf174cf692694,
    0xe49b69c19ef14ad2, 0xefbe4786384f25e3, 0x0fc19dc68b8cd5b5, 0x240ca1cc77ac9c65,
    0x2de92c6f592b0275, 0x4a7484aa6ea6e483, 0x5cb0a9dcbd41fbd4, 0x76f988da831153b5,
    0x983e5152ee66dfab, 0xa831c66d2db43210, 0xb00327c898fb213f, 0xbf597fc7beef0ee4,
    0xc6e00bf33da88fc2, 0xd5a79147930aa725, 0x06ca6351e003826f, 0x142929670a0e6e70,
    0x27b70a8546d22ffc, 0x2e1b21385c26c926, 0x4d2c6dfc5ac42aed, 0x53380d139d95b3df,
    0x650a73548baf63de, 0x766a0abb3c77b2a8, 0x81c2c92e47edaee6, 0x92722c851482353b,
    0xa2bfe8a14cf10364, 0xa81a664bbc423001, 0xc24b8b70d0f89791, 0xc76c51a30654be30,
    0xd192e819d6ef5218, 0xd69906245565a910, 0xf40e35855771202a, 0x106aa07032bbd1b8,
    0x19a4c116b8d2d0c8, 0x1e376c085141ab53, 0x2748774cdf8eeb99, 0x34b0bcb5e19b48a8,
    0x391c0cb3c5c95a63, 0x4ed8aa4ae3418acb, 0x5b9cca4f7763e373, 0x682e6ff3d6b2b8a3,
    0x748f82ee5defb2fc, 0x78a5636f43172f60, 0x84c87814a1f0ab72, 0x8cc702081a6439ec,
    0x90befffa23631e28, 0xa4506cebde82bde9, 0xbef9a3f7b2c67915, 0xc67178f2e372532b,
    0xca273eceea26619c, 0xd186b8c721c0c207, 0xeada7dd6cde0eb1e, 0xf57d4f7fee6ed178,
    0x06f067aa72176fba, 0x0a637dc5a2c898a6, 0x113f9804bef90dae, 0x1b710b35131c471b,
    0x28db77f523047d84, 0x32caab7b40c72493, 0x3c9ebe0a15c9bebc, 0x431d67c49c100d4c,
    0x4cc5d4becb3e42b6, 0x597f299cfc657e2a, 0x5fcb6fab3ad6faec, 0x6c44198c4a475817]
  small0 x := turnRight64 x 1 ^^^ turnRight64 x 8 ^^^ (x >>> 7)
  small1 x := turnRight64 x 19 ^^^ turnRight64 x 61 ^^^ (x >>> 6)
  big0 x := turnRight64 x 28 ^^^ turnRight64 x 34 ^^^ turnRight64 x 39
  big1 x := turnRight64 x 14 ^^^ turnRight64 x 18 ^^^ turnRight64 x 41

end Retouch.Bytes
