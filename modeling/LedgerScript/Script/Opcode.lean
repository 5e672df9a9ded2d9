/-!
Operation codes and their standard names.

Codes up to 0x4b announce that many bytes to push, and 0x4c to 0x4e announce a length of one, two
or four bytes. Codes up to 0x60 push data or a small number, the reserved 0x50 apart. The codes
from 0xba on have no standard meaning.
-/
namespace LedgerScript.Opcode

def pushData1 : UInt8 := 0x4c
def pushData2 : UInt8 := 0x4d
def pushData4 : UInt8 := 0x4e
def minusOne : UInt8 := 0x4f
def reserved : UInt8 := 0x50
def one : UInt8 := 0x51
def sixteen : UInt8 := 0x60
def ifTrue : UInt8 := 0x63
def ifFalse : UInt8 := 0x64
def orElse : UInt8 := 0x67
def endIf : UInt8 := 0x68
def dup : UInt8 := 0x76
def equal : UInt8 := 0x87
def equalVerify : UInt8 := 0x88
def hash160 : UInt8 := 0xa9
def codeSeparator : UInt8 := 0xab
def checkSig : UInt8 := 0xac
def firstNop : UInt8 := 0xb0
def checkLockTime : UInt8 := 0xb1

/-- The names of the codes from 0x4c to 0xb9. -/
def namesFromPushData1 : List String :=
  ["OP_PUSHDATA1", "OP_PUSHDATA2", "OP_PUSHDATA4", "OP_1NEGATE", "OP_RESERVED",
   "OP_1", "OP_2", "OP_3", "OP_4", "OP_5", "OP_6", "OP_7", "OP_8",
   "OP_9", "OP_10", "OP_11", "OP_12", "OP_13", "OP_14", "OP_15", "OP_16",
   "OP_NOP", "OP_VER", "OP_IF", "OP_NOTIF", "OP_VERIF", "OP_VERNOTIF", "OP_ELSE", "OP_ENDIF",
   "OP_VERIFY", "OP_RETURN",
   "OP_TOALTSTACK", "OP_FROMALTSTACK", "OP_2DROP", "OP_2DUP", "OP_3DUP", "OP_2OVER", "OP_2ROT",
   "OP_2SWAP", "OP_IFDUP", "OP_DEPTH", "OP_DROP", "OP_DUP", "OP_NIP", "OP_OVER", "OP_PICK",
   "OP_ROLL", "OP_ROT", "OP_SWAP", "OP_TUCK",
   "OP_CAT", "OP_SUBSTR", "OP_LEFT", "OP_RIGHT", "OP_SIZE",
   "OP_INVERT", "OP_AND", "OP_OR", "OP_XOR", "OP_EQUAL", "OP_EQUALVERIFY",
   "OP_RESERVED1", "OP_RESERVED2",
   "OP_1ADD", "OP_1SUB", "OP_2MUL", "OP_2DIV", "OP_NEGATE", "OP_ABS", "OP_NOT", "OP_0NOTEQUAL",
   "OP_ADD", "OP_SUB", "OP_MUL", "OP_DIV", "OP_MOD", "OP_LSHIFT", "OP_RSHIFT",
   "OP_BOOLAND", "OP_BOOLOR", "OP_NUMEQUAL", "OP_NUMEQUALVERIFY", "OP_NUMNOTEQUAL",
   "OP_LESSTHAN", "OP_GREATERTHAN", "OP_LESSTHANOREQUAL", "OP_GREATERTHANOREQUAL",
   "OP_MIN", "OP_MAX", "OP_WITHIN",
   "OP_RIPEMD160", "OP_SHA1", "OP_SHA256", "OP_HASH160", "OP_HASH256", "OP_CODESEPARATOR",
   "OP_CHECKSIG", "OP_CHECKSIGVERIFY", "OP_CHECKMULTISIG", "OP_CHECKMULTISIGVERIFY",
   "OP_NOP1", "OP_CHECKLOCKTIMEVERIFY", "OP_NOP3", "OP_NOP4", "OP_NOP5", "OP_NOP6", "OP_NOP7",
   "OP_NOP8", "OP_NOP9", "OP_NOP10"]

/-- The standard name of a code; direct pushes and unassigned codes have none. -/
def standardName? (opcode : UInt8) : Option String :=
  if opcode = 0 then some "OP_0"
  else if opcode < pushData1 then none
  else namesFromPushData1[opcode.toNat - pushData1.toNat]?

/-- Whether a code pushes data or a small number and does no more. -/
def isPush (opcode : UInt8) : Bool := opcode ≤ sixteen && opcode != reserved

/-- Codes that always fail: splicing, bit logic, and the arithmetic of products and shifts. -/
def disabled : List UInt8 :=
  [0x7e, 0x7f, 0x80, 0x81, 0x83, 0x84, 0x85, 0x86, 0x8d, 0x8e, 0x95, 0x96, 0x97, 0x98, 0x99]

def isDisabled (opcode : UInt8) : Bool := disabled.contains opcode

/-- Codes that are run inside branches that are not taken. -/
def isConditional (opcode : UInt8) : Bool :=
  opcode == ifTrue || opcode == ifFalse || opcode == orElse || opcode == endIf

/-- Whether a code counts against the limit of operations. -/
def isCounted (opcode : UInt8) : Bool := sixteen < opcode

end LedgerScript.Opcode
