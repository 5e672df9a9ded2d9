import LedgerScript.Digest.Sha256
import LedgerScript.Digest.Ripemd160

namespace LedgerScript.Digest

def hash256 (message : Bytes) : Bytes := Sha256.hash (Sha256.hash message)

def hash160 (message : Bytes) : Bytes := Ripemd160.hash (Sha256.hash message)

@[simp] theorem length_hash256 (message : Bytes) : (hash256 message).length = 32 := by
  simp [hash256]

@[simp] theorem length_hash160 (message : Bytes) : (hash160 message).length = 20 := by
  simp [hash160]

end LedgerScript.Digest
