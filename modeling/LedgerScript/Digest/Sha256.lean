import LedgerScript.Digest.Words

/-!
SHA-256.

The message schedule is kept as a window of sixteen words: each round uses the oldest of them and
appends the word that the recurrence gives.
-/
namespace LedgerScript.Digest.Sha256

structure Chain where
  a : UInt32
  b : UInt32
  c : UInt32
  d : UInt32
  e : UInt32
  f : UInt32
  g : UInt32
  h : UInt32

/-- First 32 bits of the fractional parts of the square roots of the first eight primes. -/
def start : Chain :=
  ⟨0x6a09e667, 0xbb67ae85, 0x3c6ef372, 0xa54ff53a, 0x510e527f, 0x9b05688c, 0x1f83d9ab, 0x5be0cd19⟩

/-- First 32 bits of the fractional parts of the cube roots of the first 64 primes. -/
def constants : List UInt32 :=
  [0x428a2f98, 0x71374491, 0xb5c0fbcf, 0xe9b5dba5, 0x3956c25b, 0x59f111f1, 0x923f82a4, 0xab1c5ed5,
   0xd807aa98, 0x12835b01, 0x243185be, 0x550c7dc3, 0x72be5d74, 0x80deb1fe, 0x9bdc06a7, 0xc19bf174,
   0xe49b69c1, 0xefbe4786, 0x0fc19dc6, 0x240ca1cc, 0x2de92c6f, 0x4a7484aa, 0x5cb0a9dc, 0x76f988da,
   0x983e5152, 0xa831c66d, 0xb00327c8, 0xbf597fc7, 0xc6e00bf3, 0xd5a79147, 0x06ca6351, 0x14292967,
   0x27b70a85, 0x2e1b2138, 0x4d2c6dfc, 0x53380d13, 0x650a7354, 0x766a0abb, 0x81c2c92e, 0x92722c85,
   0xa2bfe8a1, 0xa81a664b, 0xc24b8b70, 0xc76c51a3, 0xd192e819, 0xd6990624, 0xf40e3585, 0x106aa070,
   0x19a4c116, 0x1e376c08, 0x2748774c, 0x34b0bcb5, 0x391c0cb3, 0x4ed8aa4a, 0x5b9cca4f, 0x682e6ff3,
   0x748f82ee, 0x78a5636f, 0x84c87814, 0x8cc70208, 0x90befffa, 0xa4506ceb, 0xbef9a3f7, 0xc67178f2]

/-- The word sixteen places after the oldest of a window. -/
def nextWord (window : List UInt32) : UInt32 :=
  let w (i : Nat) := window.getD i 0
  let s0 := rotateRight (w 1) 7 ^^^ rotateRight (w 1) 18 ^^^ (w 1 >>> 3)
  let s1 := rotateRight (w 14) 17 ^^^ rotateRight (w 14) 19 ^^^ (w 14 >>> 10)
  w 0 + s0 + w 9 + s1

def round (s : Chain) (k w : UInt32) : Chain :=
  let s1 := rotateRight s.e 6 ^^^ rotateRight s.e 11 ^^^ rotateRight s.e 25
  let choice := (s.e &&& s.f) ^^^ (~~~s.e &&& s.g)
  let t1 := s.h + s1 + choice + k + w
  let s0 := rotateRight s.a 2 ^^^ rotateRight s.a 13 ^^^ rotateRight s.a 22
  let majority := (s.a &&& s.b) ^^^ (s.a &&& s.c) ^^^ (s.b &&& s.c)
  ⟨t1 + (s0 + majority), s.a, s.b, s.c, s.d + t1, s.e, s.f, s.g⟩

def rounds : List UInt32 → Chain → List UInt32 → Chain
  | [], s, _ => s
  | k :: ks, s, window =>
    rounds ks (round s k (window.headD 0)) (window.drop 1 ++ [nextWord window])

def compress (s : Chain) (block : Bytes) : Chain :=
  let t := rounds constants s (wordsBE block)
  ⟨s.a + t.a, s.b + t.b, s.c + t.c, s.d + t.d, s.e + t.e, s.f + t.f, s.g + t.g, s.h + t.h⟩

def Chain.toBytes (s : Chain) : Bytes :=
  bytesBE s.a ++ bytesBE s.b ++ bytesBE s.c ++ bytesBE s.d
    ++ bytesBE s.e ++ bytesBE s.f ++ bytesBE s.g ++ bytesBE s.h

def hash (message : Bytes) : Bytes :=
  ((blocksOf (padded message (Bytes.ofNatBE 8 (8 * message.length)))).foldl compress start).toBytes

@[simp] theorem length_hash (message : Bytes) : (hash message).length = 32 := by
  simp [hash, Chain.toBytes, bytesBE]

end LedgerScript.Digest.Sha256
