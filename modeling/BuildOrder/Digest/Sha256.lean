/-! # SHA-256

The hash function of FIPS 180-4 on lists of bytes.  A message is padded to a whole number of
blocks of sixteen words, and the blocks are absorbed one after the other into eight chaining
words.
-/

namespace BuildOrder.Sha256

/-- The eight words that pass from one block to the next. -/
structure Chain where
  a : UInt32
  b : UInt32
  c : UInt32
  d : UInt32
  e : UInt32
  f : UInt32
  g : UInt32
  h : UInt32

/-- The first thirty-two bits of the fractional parts of the square roots of the first eight primes. -/
def initial : Chain :=
  ⟨0x6a09e667, 0xbb67ae85, 0x3c6ef372, 0xa54ff53a, 0x510e527f, 0x9b05688c, 0x1f83d9ab, 0x5be0cd19⟩

/-- The first thirty-two bits of the fractional parts of the cube roots of the first sixty-four
    primes, one for each round. -/
def roundConstants : List UInt32 :=
  [0x428a2f98, 0x71374491, 0xb5c0fbcf, 0xe9b5dba5, 0x3956c25b, 0x59f111f1, 0x923f82a4, 0xab1c5ed5,
   0xd807aa98, 0x12835b01, 0x243185be, 0x550c7dc3, 0x72be5d74, 0x80deb1fe, 0x9bdc06a7, 0xc19bf174,
   0xe49b69c1, 0xefbe4786, 0x0fc19dc6, 0x240ca1cc, 0x2de92c6f, 0x4a7484aa, 0x5cb0a9dc, 0x76f988da,
   0x983e5152, 0xa831c66d, 0xb00327c8, 0xbf597fc7, 0xc6e00bf3, 0xd5a79147, 0x06ca6351, 0x14292967,
   0x27b70a85, 0x2e1b2138, 0x4d2c6dfc, 0x53380d13, 0x650a7354, 0x766a0abb, 0x81c2c92e, 0x92722c85,
   0xa2bfe8a1, 0xa81a664b, 0xc24b8b70, 0xc76c51a3, 0xd192e819, 0xd6990624, 0xf40e3585, 0x106aa070,
   0x19a4c116, 0x1e376c08, 0x2748774c, 0x34b0bcb5, 0x391c0cb3, 0x4ed8aa4a, 0x5b9cca4f, 0x682e6ff3,
   0x748f82ee, 0x78a5636f, 0x84c87814, 0x8cc70208, 0x90befffa, 0xa4506ceb, 0xbef9a3f7, 0xc67178f2]

/-- Turns a word to the right; `k` lies strictly between 0 and 32. -/
def rotateRight (x k : UInt32) : UInt32 := (x >>> k) ||| (x <<< (32 - k))

/-- The word made of four bytes, the most significant first. -/
def word (b₀ b₁ b₂ b₃ : UInt8) : UInt32 :=
  (b₀.toUInt32 <<< 24) ||| (b₁.toUInt32 <<< 16) ||| (b₂.toUInt32 <<< 8) ||| b₃.toUInt32

/-- The words of a byte list; up to three bytes at the end that make no word are left out. -/
def words : List UInt8 → List UInt32
  | b₀ :: b₁ :: b₂ :: b₃ :: rest => word b₀ b₁ b₂ b₃ :: words rest
  | _ => []

/-- The four bytes of a word, the most significant first. -/
def bytes (w : UInt32) : List UInt8 :=
  [(w >>> 24).toUInt8, (w >>> 16).toUInt8, (w >>> 8).toUInt8, w.toUInt8]

/-- The next word of the message schedule, from the sixteen before it. -/
def nextWord (window : List UInt32) : UInt32 :=
  let w₁ := window.getD 1 0
  let w₁₄ := window.getD 14 0
  let early := rotateRight w₁ 7 ^^^ rotateRight w₁ 18 ^^^ (w₁ >>> 3)
  let late := rotateRight w₁₄ 17 ^^^ rotateRight w₁₄ 19 ^^^ (w₁₄ >>> 10)
  window.getD 0 0 + early + window.getD 9 0 + late

/-- One round, with the sum of the round's constant and its scheduled word. -/
def round (s : Chain) (constant scheduled : UInt32) : Chain :=
  let mixE := rotateRight s.e 6 ^^^ rotateRight s.e 11 ^^^ rotateRight s.e 25
  let choice := (s.e &&& s.f) ^^^ (~~~s.e &&& s.g)
  let t₁ := s.h + mixE + choice + constant + scheduled
  let mixA := rotateRight s.a 2 ^^^ rotateRight s.a 13 ^^^ rotateRight s.a 22
  let majority := (s.a &&& s.b) ^^^ (s.a &&& s.c) ^^^ (s.b &&& s.c)
  ⟨t₁ + mixA + majority, s.a, s.b, s.c, s.d + t₁, s.e, s.f, s.g⟩

/-- One round for each constant; `window` holds the sixteen scheduled words that come next. -/
def rounds : List UInt32 → List UInt32 → Chain → Chain
  | [], _, s => s
  | constant :: constants, window, s =>
    rounds constants (window.tail ++ [nextWord window]) (round s constant (window.headD 0))

/-- The word-wise sum of two chains. -/
def Chain.add (s t : Chain) : Chain :=
  ⟨s.a + t.a, s.b + t.b, s.c + t.c, s.d + t.d, s.e + t.e, s.f + t.f, s.g + t.g, s.h + t.h⟩

/-- Absorbs one block of sixteen words. -/
def compress (s : Chain) (block : List UInt32) : Chain := s.add (rounds roundConstants block s)

/-- Absorbs the given number of blocks from the front of a list of words. -/
def absorb : Nat → Chain → List UInt32 → Chain
  | 0, s, _ => s
  | n + 1, s, message => absorb n (compress s (message.take 16)) (message.drop 16)

/-- How many zero bytes follow the closing bit of a message of `size` bytes. -/
def zeroBytes (size : Nat) : Nat := (119 - size % 64) % 64

/-- The eight bytes of the length of a message in bits, the most significant first. -/
def lengthBytes (size : Nat) : List UInt8 :=
  [56, 48, 40, 32, 24, 16, 8, 0].map fun shift => UInt8.ofNat ((8 * size) >>> shift)

/-- The message, a closing bit, zero bytes, and the length. -/
def padded (message : List UInt8) : List UInt8 :=
  message ++ 0x80 :: (List.replicate (zeroBytes message.length) 0 ++ lengthBytes message.length)

/-- The eight chaining words as bytes. -/
def Chain.toBytes (s : Chain) : List UInt8 :=
  bytes s.a ++ bytes s.b ++ bytes s.c ++ bytes s.d ++ bytes s.e ++ bytes s.f ++ bytes s.g ++ bytes s.h

/-- The SHA-256 hash of a message. -/
def hash (message : List UInt8) : List UInt8 :=
  let text := padded message
  (absorb (text.length / 64) initial (words text)).toBytes

end BuildOrder.Sha256
