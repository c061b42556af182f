import PsyDogeBridge.PodLayout

/-! SHA-256 on byte strings. A word is a natural number below `2 ^ 32`, and every function is
structurally recursive, so that a digest can be evaluated. -/
namespace Sha256

open PodLayout

def roundConstants : List ℕ :=
  [0x428a2f98, 0x71374491, 0xb5c0fbcf, 0xe9b5dba5, 0x3956c25b, 0x59f111f1, 0x923f82a4, 0xab1c5ed5,
   0xd807aa98, 0x12835b01, 0x243185be, 0x550c7dc3, 0x72be5d74, 0x80deb1fe, 0x9bdc06a7, 0xc19bf174,
   0xe49b69c1, 0xefbe4786, 0x0fc19dc6, 0x240ca1cc, 0x2de92c6f, 0x4a7484aa, 0x5cb0a9dc, 0x76f988da,
   0x983e5152, 0xa831c66d, 0xb00327c8, 0xbf597fc7, 0xc6e00bf3, 0xd5a79147, 0x06ca6351, 0x14292967,
   0x27b70a85, 0x2e1b2138, 0x4d2c6dfc, 0x53380d13, 0x650a7354, 0x766a0abb, 0x81c2c92e, 0x92722c85,
   0xa2bfe8a1, 0xa81a664b, 0xc24b8b70, 0xc76c51a3, 0xd192e819, 0xd6990624, 0xf40e3585, 0x106aa070,
   0x19a4c116, 0x1e376c08, 0x2748774c, 0x34b0bcb5, 0x391c0cb3, 0x4ed8aa4a, 0x5b9cca4f, 0x682e6ff3,
   0x748f82ee, 0x78a5636f, 0x84c87814, 0x8cc70208, 0x90befffa, 0xa4506ceb, 0xbef9a3f7, 0xc67178f2]

structure Digest where
  a : ℕ
  b : ℕ
  c : ℕ
  d : ℕ
  e : ℕ
  f : ℕ
  g : ℕ
  h : ℕ

def initial : Digest :=
  ⟨0x6a09e667, 0xbb67ae85, 0x3c6ef372, 0xa54ff53a,
   0x510e527f, 0x9b05688c, 0x1f83d9ab, 0x5be0cd19⟩

def word (n : ℕ) : ℕ := n % 2 ^ 32

/-- Two copies of the word side by side, shifted. -/
def rotateRight (x n : ℕ) : ℕ := word ((x * (2 ^ 32 + 1)) >>> n)

def bigSigma0 (x : ℕ) : ℕ := rotateRight x 2 ^^^ rotateRight x 13 ^^^ rotateRight x 22
def bigSigma1 (x : ℕ) : ℕ := rotateRight x 6 ^^^ rotateRight x 11 ^^^ rotateRight x 25
def smallSigma0 (x : ℕ) : ℕ := rotateRight x 7 ^^^ rotateRight x 18 ^^^ (x >>> 3)
def smallSigma1 (x : ℕ) : ℕ := rotateRight x 17 ^^^ rotateRight x 19 ^^^ (x >>> 10)
def choose (x y z : ℕ) : ℕ := (x &&& y) ^^^ ((2 ^ 32 - 1 - x) &&& z)
def majority (x y z : ℕ) : ℕ := (x &&& y) ^^^ (x &&& z) ^^^ (y &&& z)

structure Window where
  (w0 w1 w2 w3 w4 w5 w6 w7 w8 w9 w10 w11 w12 w13 w14 w15 : ℕ)

/-- The rounds that are left. The window starts at the current word, and each round computes
the word that follows it. -/
def rounds : List ℕ → Window → Digest → Digest
  | [], _, s => s
  | k :: ks, ⟨w0, w1, w2, w3, w4, w5, w6, w7, w8, w9, w10, w11, w12, w13, w14, w15⟩,
      ⟨a, b, c, d, e, f, g, h⟩ =>
    rounds ks
      ⟨w1, w2, w3, w4, w5, w6, w7, w8, w9, w10, w11, w12, w13, w14, w15,
        word (smallSigma1 w14 + w9 + smallSigma0 w1 + w0)⟩
      ⟨word (h + bigSigma1 e + choose e f g + k + w0 + bigSigma0 a + majority a b c), a, b, c,
        word (d + h + bigSigma1 e + choose e f g + k + w0), e, f, g⟩

def Digest.add : Digest → Digest → Digest
  | ⟨a, b, c, d, e, f, g, h⟩, ⟨a', b', c', d', e', f', g', h'⟩ =>
    ⟨word (a + a'), word (b + b'), word (c + c'), word (d + d'), word (e + e'), word (f + f'),
      word (g + g'), word (h + h')⟩

def compress (s : Digest) : List ℕ → Digest
  | [w0, w1, w2, w3, w4, w5, w6, w7, w8, w9, w10, w11, w12, w13, w14, w15] =>
    s.add (rounds roundConstants
      ⟨w0, w1, w2, w3, w4, w5, w6, w7, w8, w9, w10, w11, w12, w13, w14, w15⟩ s)
  | _ => s

def toWords : Bytes → List ℕ
  | b₀ :: b₁ :: b₂ :: b₃ :: rest =>
    (((b₀.toNat * 256 + b₁.toNat) * 256 + b₂.toNat) * 256 + b₃.toNat) :: toWords rest
  | _ => []

def fromWord (w : ℕ) : Bytes := (leBytes 4 w).reverse

/-- A one bit, zeros, and the length in bits as eight big-endian bytes. -/
def padding (length : ℕ) : Bytes :=
  0x80 :: List.replicate ((119 - length % 64) % 64) 0 ++ (leBytes 8 (8 * length)).reverse

def blocks : ℕ → Bytes → Digest → Digest
  | 0, _, s => s
  | n + 1, bytes, s => blocks n (bytes.drop 64) (compress s (toWords (bytes.take 64)))

def Digest.toBytes (s : Digest) : Vector UInt8 32 :=
  Vector.ofFn fun i => ([s.a, s.b, s.c, s.d, s.e, s.f, s.g, s.h].flatMap fromWord).getD i 0

def sha256 (message : Bytes) : Vector UInt8 32 :=
  let padded := message ++ padding message.length
  (blocks (padded.length / 64) padded initial).toBytes

end Sha256
