import LedgerScript.Digest

/-!
Base 58 with a checksum, the text form of addresses.

The alphabet leaves out `0`, `O`, `I` and `l`. Each leading `1` stands for one zero byte, and the
other digits spell a number in its fewest bytes. The last four bytes are the beginning of the
double SHA-256 of the rest.
-/
namespace LedgerScript.Base58

def alphabet : List Char := "123456789ABCDEFGHJKLMNPQRSTUVWXYZabcdefghijkmnopqrstuvwxyz".toList

def value? (c : Char) : Option Nat := alphabet.idxOf? c

/-- The number that the digits spell, most significant first. -/
def number? (text : List Char) : Option Nat :=
  text.foldlM (fun n c => (value? c).map (58 * n + ·)) 0

def decode (text : List Char) : Option Bytes :=
  (number? text).map fun n =>
    List.replicate (text.takeWhile (· == '1')).length 0 ++ Bytes.ofNatBE (Bytes.width n) n

/-- The payload of a text whose checksum is right. -/
def decodeChecked (text : String) : Option Bytes := do
  let bytes ← decode text.toList
  if bytes.length < 4 then none
  else
    let payload := bytes.take (bytes.length - 4)
    let checksum := bytes.drop (bytes.length - 4)
    if (Digest.hash256 payload).take 4 = checksum then some payload else none

end LedgerScript.Base58
