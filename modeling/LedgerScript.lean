import LedgerScript.Assoc
import LedgerScript.Bytes
import LedgerScript.Chain.Definition
import LedgerScript.Chain.Preset
import LedgerScript.Chain.Registry
import LedgerScript.Chain.Request
import LedgerScript.Curve.Key
import LedgerScript.Curve.Point
import LedgerScript.Curve.Signature
import LedgerScript.Decimal.Binary64
import LedgerScript.Decimal.Shortest
import LedgerScript.Digest
import LedgerScript.Digest.Ripemd160
import LedgerScript.Digest.Sha1
import LedgerScript.Digest.Sha256
import LedgerScript.Digest.Words
import LedgerScript.Error
import LedgerScript.Json.Document
import LedgerScript.Json.Value
import LedgerScript.Ledger.Block
import LedgerScript.Ledger.Content
import LedgerScript.Ledger.Encoding
import LedgerScript.Ledger.Layout
import LedgerScript.Ledger.Migration
import LedgerScript.Ledger.Read
import LedgerScript.Ledger.Record
import LedgerScript.Ledger.Sighash
import LedgerScript.Ledger.Transaction
import LedgerScript.Ledger.Transfer
import LedgerScript.Ledger.Write
import LedgerScript.Machine.Arithmetic
import LedgerScript.Machine.Behaviour
import LedgerScript.Machine.Execute
import LedgerScript.Machine.Handler
import LedgerScript.Machine.Limits
import LedgerScript.Machine.LockTime
import LedgerScript.Machine.Rearrange
import LedgerScript.Machine.Run
import LedgerScript.Machine.Signature
import LedgerScript.Machine.State
import LedgerScript.Machine.Table
import LedgerScript.Proofs.Chain.Defaults
import LedgerScript.Proofs.Chain.History
import LedgerScript.Proofs.Chain.Reachable
import LedgerScript.Proofs.Fallible
import LedgerScript.Proofs.Ledger.Block
import LedgerScript.Proofs.Ledger.Built
import LedgerScript.Proofs.Ledger.Complete
import LedgerScript.Proofs.Ledger.Coverage
import LedgerScript.Proofs.Ledger.Delimited
import LedgerScript.Proofs.Ledger.Dormant
import LedgerScript.Proofs.Ledger.Encodable
import LedgerScript.Proofs.Ledger.Equivalence
import LedgerScript.Proofs.Ledger.Faults
import LedgerScript.Proofs.Ledger.Flat
import LedgerScript.Proofs.Ledger.Lossless
import LedgerScript.Proofs.Ledger.Message
import LedgerScript.Proofs.Ledger.Migration
import LedgerScript.Proofs.Ledger.NormalForm
import LedgerScript.Proofs.Ledger.Rebinding
import LedgerScript.Proofs.Ledger.Refusals
import LedgerScript.Proofs.Ledger.RoundTrip
import LedgerScript.Proofs.Ledger.Size
import LedgerScript.Proofs.Ledger.Written
import LedgerScript.Proofs.Machine.Alike
import LedgerScript.Proofs.Machine.Bounded
import LedgerScript.Proofs.Machine.Calculation
import LedgerScript.Proofs.Machine.CodeStart
import LedgerScript.Proofs.Machine.Conditional
import LedgerScript.Proofs.Machine.Effects
import LedgerScript.Proofs.Machine.Evaluation
import LedgerScript.Proofs.Machine.Execution
import LedgerScript.Proofs.Machine.Expansion
import LedgerScript.Proofs.Machine.Flags
import LedgerScript.Proofs.Machine.Keeping
import LedgerScript.Proofs.Machine.KeyHash
import LedgerScript.Proofs.Machine.Limits
import LedgerScript.Proofs.Machine.MultiSig
import LedgerScript.Proofs.Machine.Nesting
import LedgerScript.Proofs.Machine.Overlay
import LedgerScript.Proofs.Machine.Resumption
import LedgerScript.Proofs.Machine.SignedCode
import LedgerScript.Proofs.Machine.Skipping
import LedgerScript.Proofs.Machine.StackFrame
import LedgerScript.Proofs.Machine.Steps
import LedgerScript.Proofs.Machine.TimeLock
import LedgerScript.Proofs.Machine.Transfer
import LedgerScript.Proofs.Machine.Triple
import LedgerScript.Proofs.Machine.Truth
import LedgerScript.Proofs.Machine.Underflow
import LedgerScript.Proofs.Machine.Unmarked
import LedgerScript.Proofs.Machine.WellFormed
import LedgerScript.Proofs.Script.Covered
import LedgerScript.Proofs.Script.Deletion
import LedgerScript.Proofs.Script.Denotation
import LedgerScript.Proofs.Script.Meaning
import LedgerScript.Proofs.Script.Names
import LedgerScript.Proofs.Script.Number
import LedgerScript.Proofs.Script.Partition
import LedgerScript.Proofs.Script.Parts
import LedgerScript.Proofs.Script.Rendering
import LedgerScript.Proofs.Script.Shortest
import LedgerScript.Proofs.Script.Token
import LedgerScript.Proofs.Template.Address
import LedgerScript.Proofs.Template.Classification
import LedgerScript.Proofs.Template.HexDigest
import LedgerScript.Proofs.Template.Known
import LedgerScript.Proofs.Template.Matching
import LedgerScript.Proofs.Template.OneSlot
import LedgerScript.Proofs.Template.Refilling
import LedgerScript.Proofs.Text.Base58
import LedgerScript.Proofs.Text.Words
import LedgerScript.Proofs.Wire.CompactSize
import LedgerScript.Proofs.Wire.Delimited
import LedgerScript.Proofs.Wire.Integer
import LedgerScript.Proofs.Wire.NormalForm
import LedgerScript.Proofs.Wire.ReadBack
import LedgerScript.Script.Number
import LedgerScript.Script.Opcode
import LedgerScript.Script.Operation
import LedgerScript.Script.Push
import LedgerScript.Script.Text
import LedgerScript.Template
import LedgerScript.Text.Base58
import LedgerScript.Text.Blank
import LedgerScript.Text.Hex
import LedgerScript.Text.Utf8
import LedgerScript.Wire.CompactSize
import LedgerScript.Wire.Decoder
import LedgerScript.Wire.Integer
import LedgerScript.Wire.Written
