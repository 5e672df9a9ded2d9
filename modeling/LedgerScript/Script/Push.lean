import LedgerScript.Script.Operation

namespace LedgerScript.Script

/-- The code and the length that announce so many bytes. -/
def pushHead (size : Nat) : Bytes :=
  if size ≤ 0x4b then [UInt8.ofNat size]
  else if size ≤ 0xff then [Opcode.pushData1, UInt8.ofNat size]
  else if size ≤ 0xffff then Opcode.pushData2 :: Bytes.ofNatLE 2 size
  else Opcode.pushData4 :: Bytes.ofNatLE 4 size

/-- The shortest operation that pushes the data. -/
def push (data : Bytes) : Bytes := pushHead data.length ++ data

theorem length_push (data : Bytes) :
    (push data).length = data.length +
      if data.length ≤ 0x4b then 1 else if data.length ≤ 0xff then 2
      else if data.length ≤ 0xffff then 3 else 5 := by
  unfold push pushHead
  repeat' split
  all_goals simp +arith

end LedgerScript.Script
