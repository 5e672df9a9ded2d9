import LedgerScript.Script.Opcode

namespace LedgerScript

/-- Rearrangements of the top of the main stack. -/
inductive StackMove where
  | drop
  | drop2
  | dup
  | dup2
  | dup3
  | over
  | over2
  | rot
  | rot2
  | swap
  | swap2
  | nip
  | tuck
deriving DecidableEq, Repr

/-- Functions of one number. -/
inductive UnaryNumber where
  | increment
  | decrement
  | negate
  | abs
  | not
  | isNonzero
deriving DecidableEq, Repr

/-- Functions of two numbers. -/
inductive BinaryNumber where
  | add
  | sub
  | and
  | or
  | equal
  | notEqual
  | less
  | greater
  | lessOrEqual
  | greaterOrEqual
  | min
  | max
deriving DecidableEq, Repr

/-- Digests of one item. -/
inductive ItemDigest where
  | ripemd160
  | sha1
  | sha256
  | hash160
  | hash256
deriving DecidableEq, Repr

/-- What an operation can do. Any code may be bound to any behaviour. -/
inductive Handler where
  | pushData
  | pushNumber
  | nop
  /-- Does nothing, unless such operations are discouraged. -/
  | upgradable
  | reserved
  | disabled
  | unspendable
  /-- Opens a branch that is taken if the top item is true, or false if negated. -/
  | branch (negated : Bool)
  | orElse
  | endBranch
  | verify
  | toAlt
  | fromAlt
  | move (move : StackMove)
  | dupIfTrue
  | depth
  | pick
  | roll
  | size
  /-- Compares the top two items; the verifying form fails instead of answering false. -/
  | equal (verifying : Bool)
  | unary (f : UnaryNumber)
  | binary (f : BinaryNumber)
  | verifyEqualNumbers
  | within
  | digest (digest : ItemDigest)
  | codeSeparator
  | checkSig (verifying : Bool)
  | checkMultiSig (verifying : Bool)
  /-- Checks the lock time; the optional form does so only where the flag asks for it. -/
  | checkLockTime (optional : Bool)
deriving DecidableEq, Repr

namespace Handler

/-- The behaviours of the codes from 0x4f to 0xb9. -/
def fromMinusOne : List Handler :=
  [pushNumber, reserved] ++ List.replicate 16 pushNumber
  ++ [nop, reserved, branch false, branch true, reserved, reserved, orElse, endBranch, verify,
      unspendable, toAlt, fromAlt, move .drop2, move .dup2, move .dup3, move .over2, move .rot2,
      move .swap2, dupIfTrue, depth, move .drop, move .dup, move .nip, move .over, pick, roll,
      move .rot, move .swap, move .tuck]
  ++ List.replicate 4 disabled ++ [size]
  ++ List.replicate 4 disabled ++ [equal false, equal true, reserved, reserved,
      unary .increment, unary .decrement, disabled, disabled,
      unary .negate, unary .abs, unary .not, unary .isNonzero, binary .add, binary .sub]
  ++ List.replicate 5 disabled ++ [binary .and, binary .or, binary .equal, verifyEqualNumbers,
      binary .notEqual, binary .less, binary .greater, binary .lessOrEqual,
      binary .greaterOrEqual, binary .min, binary .max, within,
      digest .ripemd160, digest .sha1, digest .sha256, digest .hash160, digest .hash256,
      codeSeparator, checkSig false, checkSig true, checkMultiSig false, checkMultiSig true,
      upgradable, checkLockTime true]
  ++ List.replicate 8 upgradable

/-- The behaviour of a standard code. -/
def standard? (opcode : UInt8) : Option Handler :=
  if opcode < Opcode.minusOne then some pushData
  else fromMinusOne[opcode.toNat - Opcode.minusOne.toNat]?

/-- Whether the behaviour opens, switches or closes a branch. -/
def isConditional : Handler → Bool
  | branch _ | orElse | endBranch => true
  | _ => false

end Handler
end LedgerScript
