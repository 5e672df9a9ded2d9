import LedgerScript.Error
import LedgerScript.Script.Opcode

/-!
Scripts and the operations they consist of.

A script is a byte string. An operation is a code, followed for pushes by the data and, in the
longer forms, by the length of the data before it.
-/
namespace LedgerScript

abbrev Script := Bytes

structure Operation where
  /-- Where the code stands in the script. -/
  offset : Nat
  /-- Where the next operation begins. -/
  stop : Nat
  opcode : UInt8
  /-- The bytes that a push carries. -/
  data : Option Bytes
deriving DecidableEq, Repr

def Operation.isPush (op : Operation) : Bool := Opcode.isPush op.opcode

namespace Script

/-- How many bytes after the code spell the length of the data; direct pushes need none, and
other operations carry no data. -/
def lengthWidth? (opcode : UInt8) : Option Nat :=
  if opcode < Opcode.pushData1 then some 0
  else if opcode = Opcode.pushData1 then some 1
  else if opcode = Opcode.pushData2 then some 2
  else if opcode = Opcode.pushData4 then some 4
  else none

/-- The length of the data of an operation. -/
def dataLength (opcode : UInt8) (width : Nat) (rest : Bytes) : Nat :=
  if width = 0 then opcode.toNat else Bytes.toNatLE (rest.take width)

/-- How many of the bytes after a code belong to its operation, and the data among them. -/
def payload (opcode : UInt8) (rest : Bytes) : Except Error (Nat × Option Bytes) :=
  match lengthWidth? opcode with
  | none => .ok (0, none)
  | some width =>
    if rest.length < width then .error (.truncated width rest.length)
    else
      let n := dataLength opcode width rest
      let body := rest.drop width
      if body.length < n then .error (.truncated n body.length)
      else .ok (width + n, some (body.take n))

/-- The operations of a script that stands at an offset, after skipping some of its bytes. -/
def operationsFrom (offset skip : Nat) : Script → Except Error (List Operation)
  | [] => .ok []
  | opcode :: rest =>
    match skip with
    | skip + 1 => operationsFrom offset skip rest
    | 0 =>
      match payload opcode rest with
      | .error e => .error e
      | .ok (size, data) =>
        let stop := offset + 1 + size
        (operationsFrom stop size rest).map (⟨offset, stop, opcode, data⟩ :: ·)

/-- The operations of a script; a push that runs past the end is an error. -/
def operations (script : Script) : Except Error (List Operation) := operationsFrom 0 0 script

theorem operationsFrom_skip (offset skip : Nat) (script : Script) :
    operationsFrom offset skip script = operationsFrom offset 0 (script.drop skip) := by
  induction script generalizing skip with
  | nil => simp [operationsFrom]
  | cons opcode rest ih =>
    cases skip with
    | zero => rfl
    | succ skip => simp [operationsFrom, ih]

theorem operationsFrom_cons (offset : Nat) (opcode : UInt8) (rest : Bytes) :
    operationsFrom offset 0 (opcode :: rest) =
      match payload opcode rest with
      | .error e => .error e
      | .ok (size, data) =>
        (operationsFrom (offset + 1 + size) 0 (rest.drop size)).map
          (⟨offset, offset + 1 + size, opcode, data⟩ :: ·) := by
  rw [operationsFrom]
  cases payload opcode rest with
  | error e => rfl
  | ok p => simp only [operationsFrom_skip _ p.1]

/-- The bytes of an operation of the script. -/
def slice (script : Script) (op : Operation) : Bytes :=
  (script.drop op.offset).take (op.stop - op.offset)

/-- The script without the operations whose bytes are the pattern. -/
def findAndDelete (script : Script) (pattern : Bytes) : Except Error Script :=
  if pattern = [] then .ok script
  else do
    let ops ← operations script
    pure ((ops.map (slice script)).filter (· ≠ pattern)).flatten

/-- The script without the operations that are just the code. -/
def withoutOpcode (script : Script) (opcode : UInt8) : Except Error Script :=
  findAndDelete script [opcode]

end Script
end LedgerScript
