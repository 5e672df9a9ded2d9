import LedgerScript.Ledger.Layout
import LedgerScript.Machine.Table

namespace LedgerScript

structure Preset where
  name : String
  layout : Layout
  overrides : List Override

namespace Field

/-- A little-endian number with a default. -/
def integer (name : String) (signed : Bool) (width : Nat) (default : Int64) : Field :=
  ⟨name, .integer ⟨.little, signed, width⟩, none, .int default⟩

/-- A digest of 32 bytes, zeros by default. -/
def hash (name : String) : Field := ⟨name, .bytes, some 32, .bytes (List.replicate 32 0)⟩

/-- A field of any length with an empty default. -/
def empty (name : String) (encoding : Encoding) : Field :=
  ⟨name, encoding, none, encoding.emptyValue none⟩

end Field

namespace Preset

def bitcoinTransaction : Schema where
  fields :=
    [.integer "nVersion" true 4 1, .empty "vin" .inputs, .empty "vout" .outputs,
     .integer "nLockTime" false 4 0]

/-- The header of 80 bytes. -/
def bitcoinHeader : Schema where
  fields :=
    [.integer "nVersion" true 4 1, .hash "hashPrevBlock", .hash "hashMerkleRoot",
     .integer "nTime" false 4 0, .integer "nBits" false 4 0, .integer "nNonce" false 4 0]

def bitcoinBody : Schema where
  fields := [.empty "vtx" .transactions]

/-- A preset with a transaction layout of its own in Bitcoin's blocks. -/
def ofTransaction (name : String) (transaction : Schema) : Preset :=
  ⟨name, ⟨transaction, bitcoinHeader, bitcoinBody⟩, []⟩

def bitcoin : Preset := ofTransaction "Bitcoin" bitcoinTransaction

/-- Transactions with a time, as one further field after the version. -/
def timedFields : List Field :=
  [.integer "nVersion" true 4 1, .integer "Timestamp" true 4 0, .empty "vin" .inputs,
   .empty "vout" .outputs, .integer "nLockTime" false 4 0]

/-- Timed transactions that carry speech, signed blocks, and a lock time check without a flag. -/
def clams : Preset where
  name := "Clams"
  layout :=
    { transaction := ⟨timedFields ++ [.empty "ClamSpeech" .bytes]⟩
      blockHeader := bitcoinHeader
      blockBody := ⟨[.empty "vtx" .transactions, .empty "blockSig" .bytes]⟩ }
  overrides := [⟨Opcode.firstNop, "OP_CHECKLOCKTIMEVERIFY", .checkLockTime false⟩]

/-- Transactions that end with a height. -/
def freicoin : Preset :=
  ofTransaction "Freicoin" ⟨bitcoinTransaction.fields ++ [.integer "RefHeight" true 4 0]⟩

def peercoin : Preset := ofTransaction "Peercoin" ⟨timedFields⟩

def builtin : List Preset := [bitcoin, clams, freicoin, peercoin]

end Preset
end LedgerScript
