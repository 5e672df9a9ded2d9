import LedgerScript.Bytes

/-!
Machine words and message padding shared by the digests.

A message is padded with the byte `0x80`, then zeros, then its length in bits as eight bytes, up
to a whole number of 64-byte blocks.
-/
namespace LedgerScript.Digest

def rotateLeft (x : UInt32) (n : UInt32) : UInt32 := (x <<< n) ||| (x >>> (32 - n))

def rotateRight (x : UInt32) (n : UInt32) : UInt32 := (x >>> n) ||| (x <<< (32 - n))

/-- How many zeros stand between the mark and the length. -/
def zeros (length : Nat) : Nat := (119 - length % 64) % 64

/-- The message with its mark, zeros and the given eight bytes of length. -/
def padded (message length : Bytes) : Bytes :=
  message ++ [0x80] ++ List.replicate (zeros message.length) 0 ++ length

/-- The first blocks of 64 bytes, so many as asked for. -/
def blocks : Nat → Bytes → List Bytes
  | 0, _ => []
  | count + 1, bytes => bytes.take 64 :: blocks count (bytes.drop 64)

def blocksOf (bytes : Bytes) : List Bytes := blocks (bytes.length / 64) bytes

/-- A word from four bytes, the first of them most significant. -/
def word (a b c d : UInt8) : UInt32 :=
  a.toUInt32 <<< 24 ||| b.toUInt32 <<< 16 ||| c.toUInt32 <<< 8 ||| d.toUInt32

def wordsBE : Bytes → List UInt32
  | a :: b :: c :: d :: rest => word a b c d :: wordsBE rest
  | _ => []

def wordsLE : Bytes → List UInt32
  | a :: b :: c :: d :: rest => word d c b a :: wordsLE rest
  | _ => []

def bytesBE (x : UInt32) : Bytes :=
  [(x >>> 24).toUInt8, (x >>> 16).toUInt8, (x >>> 8).toUInt8, x.toUInt8]

def bytesLE (x : UInt32) : Bytes := (bytesBE x).reverse

end LedgerScript.Digest
