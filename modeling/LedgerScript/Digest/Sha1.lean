import LedgerScript.Digest.Words

namespace LedgerScript.Digest.Sha1

structure Chain where
  a : UInt32
  b : UInt32
  c : UInt32
  d : UInt32
  e : UInt32

def start : Chain := ⟨0x67452301, 0xefcdab89, 0x98badcfe, 0x10325476, 0xc3d2e1f0⟩

/-- The word sixteen places after the oldest of a window. -/
def nextWord (window : List UInt32) : UInt32 :=
  let w (i : Nat) := window.getD i 0
  rotateLeft (w 13 ^^^ w 8 ^^^ w 2 ^^^ w 0) 1

/-- The constant and the mixing function of a round, by its number. -/
def mix (i : Nat) (b c d : UInt32) : UInt32 × UInt32 :=
  if i < 20 then (0x5a827999, (b &&& c) ||| (~~~b &&& d))
  else if i < 40 then (0x6ed9eba1, b ^^^ c ^^^ d)
  else if i < 60 then (0x8f1bbcdc, (b &&& c) ||| (b &&& d) ||| (c &&& d))
  else (0xca62c1d6, b ^^^ c ^^^ d)

def round (s : Chain) (i : Nat) (w : UInt32) : Chain :=
  let (k, f) := mix i s.b s.c s.d
  ⟨rotateLeft s.a 5 + f + s.e + k + w, s.a, rotateLeft s.b 30, s.c, s.d⟩

/-- The rounds that are left, the last being number 79. -/
def rounds : Nat → Chain → List UInt32 → Chain
  | 0, s, _ => s
  | left + 1, s, window =>
    rounds left (round s (79 - left) (window.headD 0)) (window.drop 1 ++ [nextWord window])

def compress (s : Chain) (block : Bytes) : Chain :=
  let t := rounds 80 s (wordsBE block)
  ⟨s.a + t.a, s.b + t.b, s.c + t.c, s.d + t.d, s.e + t.e⟩

def Chain.toBytes (s : Chain) : Bytes :=
  bytesBE s.a ++ bytesBE s.b ++ bytesBE s.c ++ bytesBE s.d ++ bytesBE s.e

def hash (message : Bytes) : Bytes :=
  ((blocksOf (padded message (Bytes.ofNatBE 8 (8 * message.length)))).foldl compress start).toBytes

@[simp] theorem length_hash (message : Bytes) : (hash message).length = 20 := by
  simp [hash, Chain.toBytes, bytesBE]

end LedgerScript.Digest.Sha1
