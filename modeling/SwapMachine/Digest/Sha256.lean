import SwapMachine.Block.Number

/-!
# SwapMachine.Digest.Sha256 — the 256-bit secure hash

The message is padded to whole blocks of 64 bytes. Each block is expanded to 64 words, and 64 rounds
mix them into the eight words of the chain.

* `rounds` expands the block as it goes: the window holds the next sixteen words.
* `digest` gives the 32 bytes of the hash, `text` their canonical form.
-/

namespace SwapMachine.Sha256

/-- The first 32 bits behind the point of the cube roots of the first 64 primes. -/
def roundConstants : List UInt32 :=
  [0x428a2f98, 0x71374491, 0xb5c0fbcf, 0xe9b5dba5, 0x3956c25b, 0x59f111f1, 0x923f82a4, 0xab1c5ed5,
    0xd807aa98, 0x12835b01, 0x243185be, 0x550c7dc3, 0x72be5d74, 0x80deb1fe, 0x9bdc06a7, 0xc19bf174,
    0xe49b69c1, 0xefbe4786, 0x0fc19dc6, 0x240ca1cc, 0x2de92c6f, 0x4a7484aa, 0x5cb0a9dc, 0x76f988da,
    0x983e5152, 0xa831c66d, 0xb00327c8, 0xbf597fc7, 0xc6e00bf3, 0xd5a79147, 0x06ca6351, 0x14292967,
    0x27b70a85, 0x2e1b2138, 0x4d2c6dfc, 0x53380d13, 0x650a7354, 0x766a0abb, 0x81c2c92e, 0x92722c85,
    0xa2bfe8a1, 0xa81a664b, 0xc24b8b70, 0xc76c51a3, 0xd192e819, 0xd6990624, 0xf40e3585, 0x106aa070,
    0x19a4c116, 0x1e376c08, 0x2748774c, 0x34b0bcb5, 0x391c0cb3, 0x4ed8aa4a, 0x5b9cca4f, 0x682e6ff3,
    0x748f82ee, 0x78a5636f, 0x84c87814, 0x8cc70208, 0x90befffa, 0xa4506ceb, 0xbef9a3f7, 0xc67178f2]

/-- Eight words. -/
structure Chain where
  a : UInt32
  b : UInt32
  c : UInt32
  d : UInt32
  e : UInt32
  f : UInt32
  g : UInt32
  h : UInt32

/-- The first 32 bits behind the point of the square roots of the first eight primes. -/
def start : Chain :=
  ⟨0x6a09e667, 0xbb67ae85, 0x3c6ef372, 0xa54ff53a, 0x510e527f, 0x9b05688c,
    0x1f83d9ab, 0x5be0cd19⟩

/-- The word turned right by `n` bits. -/
def rotate (x n : UInt32) : UInt32 := (x >>> n) ||| (x <<< (32 - n))

/-- The word that follows sixteen words of an expanded block. -/
def expand (window : List UInt32) : UInt32 :=
  let near := window.getD 14 0
  let far := window.getD 1 0
  (rotate near 17 ^^^ rotate near 19 ^^^ (near >>> 10)) + window.getD 9 0
    + (rotate far 7 ^^^ rotate far 18 ^^^ (far >>> 3)) + window.getD 0 0

/-- One round. -/
def round (s : Chain) (constant word : UInt32) : Chain :=
  let mixed := s.h + (rotate s.e 6 ^^^ rotate s.e 11 ^^^ rotate s.e 25)
    + ((s.e &&& s.f) ^^^ (~~~s.e &&& s.g)) + constant + word
  let majority := (rotate s.a 2 ^^^ rotate s.a 13 ^^^ rotate s.a 22)
    + ((s.a &&& s.b) ^^^ (s.a &&& s.c) ^^^ (s.b &&& s.c))
  ⟨mixed + majority, s.a, s.b, s.c, s.d + mixed, s.e, s.f, s.g⟩

/-- A round for each constant. -/
def rounds : List UInt32 → List UInt32 → Chain → Chain
  | constant :: constants, word :: words, s =>
    rounds constants (words ++ [expand (word :: words)]) (round s constant word)
  | _, _, s => s

/-- The words of a block, four bytes each. -/
def words : Bytes → List UInt32
  | a :: b :: c :: d :: bs =>
    ((a.toUInt32 <<< 24) ||| (b.toUInt32 <<< 16) ||| (c.toUInt32 <<< 8) ||| d.toUInt32) :: words bs
  | _ => []

/-- The chain after a block. -/
def compress (s : Chain) (block : Bytes) : Chain :=
  let r := rounds roundConstants (words block) s
  ⟨s.a + r.a, s.b + r.b, s.c + r.c, s.d + r.d, s.e + r.e, s.f + r.f, s.g + r.g, s.h + r.h⟩

/-- The chain after blocks of 64 bytes. -/
def chain (s : Chain) (bs : Bytes) : Chain :=
  if bs.length < 64 then s else chain (compress s (bs.take 64)) (bs.drop 64)
termination_by bs.length
decreasing_by simp only [List.length_drop]; omega

/-- The bytes of a word. -/
def wordBytes (w : UInt32) : Bytes :=
  [(w >>> 24).toUInt8, (w >>> 16).toUInt8, (w >>> 8).toUInt8, w.toUInt8]

/-- The message with a one bit, zeros and its length in bits behind it, a multiple of 64 bytes. -/
def padded (message : Bytes) : Bytes :=
  message ++ 0x80 :: (List.replicate ((119 - message.length % 64) % 64) 0
    ++ Block.Number.toBytes 8 (8 * message.length))

/-- The hash of a message. -/
def digest (message : Bytes) : Bytes :=
  let s := chain start (padded message)
  [s.a, s.b, s.c, s.d, s.e, s.f, s.g, s.h].flatMap wordBytes

/-- The hash as `0x` and 64 digits. -/
def text (message : Bytes) : String :=
  String.ofList ('0' :: 'x' :: Text.Hex.ofBytes (digest message))

end SwapMachine.Sha256
