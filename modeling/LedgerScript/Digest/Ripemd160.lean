import LedgerScript.Digest.Words

/-!
RIPEMD-160.

Two lines of eighty steps run over the same block, each with its own word order, rotations,
mixing functions and constants; their results are added crosswise.
-/
namespace LedgerScript.Digest.Ripemd160

structure Chain where
  a : UInt32
  b : UInt32
  c : UInt32
  d : UInt32
  e : UInt32

def start : Chain := ⟨0x67452301, 0xefcdab89, 0x98badcfe, 0x10325476, 0xc3d2e1f0⟩

/-- One step of a line: mixing function, constant, word index and rotation. -/
structure Step where
  mixer : Nat
  constant : UInt32
  word : Nat
  rotation : UInt32

def mix (mixer : Nat) (x y z : UInt32) : UInt32 :=
  match mixer with
  | 0 => x ^^^ y ^^^ z
  | 1 => (x &&& y) ||| (~~~x &&& z)
  | 2 => (x ||| ~~~y) ^^^ z
  | 3 => (x &&& z) ||| (y &&& ~~~z)
  | _ => x ^^^ (y ||| ~~~z)

/-- Sixteen steps with one mixing function and constant. -/
def lane (mixer : Nat) (constant : UInt32) (words : List Nat) (rotations : List UInt32) :
    List Step :=
  List.zipWith (fun w r => ⟨mixer, constant, w, r⟩) words rotations

def left : List Step :=
  lane 0 0x00000000 [0, 1, 2, 3, 4, 5, 6, 7, 8, 9, 10, 11, 12, 13, 14, 15]
      [11, 14, 15, 12, 5, 8, 7, 9, 11, 13, 14, 15, 6, 7, 9, 8]
    ++ lane 1 0x5a827999 [7, 4, 13, 1, 10, 6, 15, 3, 12, 0, 9, 5, 2, 14, 11, 8]
      [7, 6, 8, 13, 11, 9, 7, 15, 7, 12, 15, 9, 11, 7, 13, 12]
    ++ lane 2 0x6ed9eba1 [3, 10, 14, 4, 9, 15, 8, 1, 2, 7, 0, 6, 13, 11, 5, 12]
      [11, 13, 6, 7, 14, 9, 13, 15, 14, 8, 13, 6, 5, 12, 7, 5]
    ++ lane 3 0x8f1bbcdc [1, 9, 11, 10, 0, 8, 12, 4, 13, 3, 7, 15, 14, 5, 6, 2]
      [11, 12, 14, 15, 14, 15, 9, 8, 9, 14, 5, 6, 8, 6, 5, 12]
    ++ lane 4 0xa953fd4e [4, 0, 5, 9, 7, 12, 2, 10, 14, 1, 3, 8, 11, 6, 15, 13]
      [9, 15, 5, 11, 6, 8, 13, 12, 5, 12, 13, 14, 11, 8, 5, 6]

def right : List Step :=
  lane 4 0x50a28be6 [5, 14, 7, 0, 9, 2, 11, 4, 13, 6, 15, 8, 1, 10, 3, 12]
      [8, 9, 9, 11, 13, 15, 15, 5, 7, 7, 8, 11, 14, 14, 12, 6]
    ++ lane 3 0x5c4dd124 [6, 11, 3, 7, 0, 13, 5, 10, 14, 15, 8, 12, 4, 9, 1, 2]
      [9, 13, 15, 7, 12, 8, 9, 11, 7, 7, 12, 7, 6, 15, 13, 11]
    ++ lane 2 0x6d703ef3 [15, 5, 1, 3, 7, 14, 6, 9, 11, 8, 12, 2, 10, 0, 4, 13]
      [9, 7, 15, 11, 8, 6, 6, 14, 12, 13, 5, 14, 13, 13, 7, 5]
    ++ lane 1 0x7a6d76e9 [8, 6, 4, 1, 3, 11, 15, 0, 5, 12, 2, 13, 9, 7, 10, 14]
      [15, 5, 8, 11, 14, 14, 6, 14, 6, 9, 12, 9, 12, 5, 15, 8]
    ++ lane 0 0x00000000 [12, 15, 10, 4, 1, 5, 8, 7, 6, 2, 13, 14, 0, 3, 9, 11]
      [8, 5, 12, 9, 12, 5, 14, 6, 8, 13, 6, 5, 15, 13, 11, 11]

def step (words : List UInt32) (s : Chain) (t : Step) : Chain :=
  let sum := s.a + mix t.mixer s.b s.c s.d + words.getD t.word 0 + t.constant
  ⟨s.e, rotateLeft sum t.rotation + s.e, s.b, rotateLeft s.c 10, s.d⟩

def compress (s : Chain) (block : Bytes) : Chain :=
  let words := wordsLE block
  let l := left.foldl (step words) s
  let r := right.foldl (step words) s
  ⟨s.b + l.c + r.d, s.c + l.d + r.e, s.d + l.e + r.a, s.e + l.a + r.b, s.a + l.b + r.c⟩

def Chain.toBytes (s : Chain) : Bytes :=
  bytesLE s.a ++ bytesLE s.b ++ bytesLE s.c ++ bytesLE s.d ++ bytesLE s.e

def hash (message : Bytes) : Bytes :=
  ((blocksOf (padded message (Bytes.ofNatLE 8 (8 * message.length)))).foldl compress start).toBytes

@[simp] theorem length_hash (message : Bytes) : (hash message).length = 20 := by
  simp [hash, Chain.toBytes, bytesLE, bytesBE]

end LedgerScript.Digest.Ripemd160
