/-! The SHA-256 digest of a list of bytes. -/
namespace JsonWriter.Sha256

def rotateRight (x n : UInt32) : UInt32 := (x >>> n) ||| (x <<< (32 - n))

/-- The first 32 bits of the fractional parts of the cube roots of the first 64 primes. -/
def roundConstants : List UInt32 :=
  [0x428a2f98, 0x71374491, 0xb5c0fbcf, 0xe9b5dba5, 0x3956c25b, 0x59f111f1, 0x923f82a4, 0xab1c5ed5,
   0xd807aa98, 0x12835b01, 0x243185be, 0x550c7dc3, 0x72be5d74, 0x80deb1fe, 0x9bdc06a7, 0xc19bf174,
   0xe49b69c1, 0xefbe4786, 0x0fc19dc6, 0x240ca1cc, 0x2de92c6f, 0x4a7484aa, 0x5cb0a9dc, 0x76f988da,
   0x983e5152, 0xa831c66d, 0xb00327c8, 0xbf597fc7, 0xc6e00bf3, 0xd5a79147, 0x06ca6351, 0x14292967,
   0x27b70a85, 0x2e1b2138, 0x4d2c6dfc, 0x53380d13, 0x650a7354, 0x766a0abb, 0x81c2c92e, 0x92722c85,
   0xa2bfe8a1, 0xa81a664b, 0xc24b8b70, 0xc76c51a3, 0xd192e819, 0xd6990624, 0xf40e3585, 0x106aa070,
   0x19a4c116, 0x1e376c08, 0x2748774c, 0x34b0bcb5, 0x391c0cb3, 0x4ed8aa4a, 0x5b9cca4f, 0x682e6ff3,
   0x748f82ee, 0x78a5636f, 0x84c87814, 0x8cc70208, 0x90befffa, 0xa4506ceb, 0xbef9a3f7, 0xc67178f2]

structure Chain where
  a : UInt32
  b : UInt32
  c : UInt32
  d : UInt32
  e : UInt32
  f : UInt32
  g : UInt32
  h : UInt32

/-- The first 32 bits of the fractional parts of the square roots of the first 8 primes. -/
def start : Chain :=
  ⟨0x6a09e667, 0xbb67ae85, 0x3c6ef372, 0xa54ff53a, 0x510e527f, 0x9b05688c, 0x1f83d9ab, 0x5be0cd19⟩

def Chain.add (x y : Chain) : Chain :=
  ⟨x.a + y.a, x.b + y.b, x.c + y.c, x.d + y.d, x.e + y.e, x.f + y.f, x.g + y.g, x.h + y.h⟩

def Chain.round (x : Chain) (constant word : UInt32) : Chain :=
  let sum₁ := rotateRight x.e 6 ^^^ rotateRight x.e 11 ^^^ rotateRight x.e 25
  let choice := (x.e &&& x.f) ^^^ (~~~x.e &&& x.g)
  let first := x.h + sum₁ + choice + constant + word
  let sum₀ := rotateRight x.a 2 ^^^ rotateRight x.a 13 ^^^ rotateRight x.a 22
  let majority := (x.a &&& x.b) ^^^ (x.a &&& x.c) ^^^ (x.b &&& x.c)
  ⟨first + sum₀ + majority, x.a, x.b, x.c, x.d + first, x.e, x.f, x.g⟩

/-- The words of the rounds: the window of sixteen words moves on by one each round. -/
def schedule : Nat → List UInt32 → List UInt32
  | 0, _ => []
  | _ + 1, [] => []
  | rounds + 1, word :: rest =>
    let w₁ := rest.getD 0 0
    let w₁₄ := rest.getD 13 0
    let small₀ := rotateRight w₁ 7 ^^^ rotateRight w₁ 18 ^^^ (w₁ >>> 3)
    let small₁ := rotateRight w₁₄ 17 ^^^ rotateRight w₁₄ 19 ^^^ (w₁₄ >>> 10)
    word :: schedule rounds (rest ++ [word + small₀ + rest.getD 8 0 + small₁])

def Chain.block (x : Chain) (words : List UInt32) : Chain :=
  x.add ((roundConstants.zip (schedule 64 words)).foldl
    (fun y (constant, word) => y.round constant word) x)

/-- Words of four bytes, the first byte the most significant. -/
def words : List UInt8 → List UInt32
  | b₀ :: b₁ :: b₂ :: b₃ :: rest =>
    ((b₀.toUInt32 <<< 24) ||| (b₁.toUInt32 <<< 16) ||| (b₂.toUInt32 <<< 8) ||| b₃.toUInt32)
      :: words rest
  | _ => []

def lengthBytes (n : Nat) : List UInt8 :=
  [56, 48, 40, 32, 24, 16, 8, 0].map fun shift => UInt8.ofNat (n >>> shift)

/-- A one bit, zeros, and the length in bits fill a message up to whole blocks of 64 bytes. -/
def padding (length : Nat) : List UInt8 :=
  0x80 :: List.replicate ((119 - length % 64) % 64) 0 ++ lengthBytes (8 * length)

def blocks : Nat → Chain → List UInt32 → Chain
  | 0, x, _ => x
  | n + 1, x, words => blocks n (x.block (words.take 16)) (words.drop 16)

def hexWord (word : UInt32) : List Char :=
  [28, 24, 20, 16, 12, 8, 4, 0].map fun shift => Nat.digitChar ((word.toNat >>> shift) % 16)

def digest (message : List UInt8) : String :=
  let padded := words (message ++ padding message.length)
  let x := blocks (padded.length / 16) start padded
  String.ofList ([x.a, x.b, x.c, x.d, x.e, x.f, x.g, x.h].flatMap hexWord)

example : digest [0x61, 0x62, 0x63] =
    "ba7816bf8f01cfea414140de5dae2223b00361a396177a9cb410ff61f20015ad" := by decide +kernel

end JsonWriter.Sha256
