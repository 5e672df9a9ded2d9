namespace LedgerScript.Limits

/-- Longest script that is run, in bytes. -/
def scriptSize : Nat := 10000

/-- Longest item that may be pushed, in bytes. -/
def itemSize : Nat := 520

/-- Most items on the two stacks together. -/
def stackItems : Nat := 1000

/-- Most operations that are more than pushes; a multisignature check counts its keys too. -/
def operations : Nat := 201

/-- Most keys of a multisignature check. -/
def multisigKeys : Nat := 20

/-- Longest arithmetic operand, in bytes. -/
def numberSize : Nat := 4

/-- Longest lock time operand, in bytes. -/
def lockTimeSize : Nat := 5

/-- Lock times below this are block heights, the others are times. -/
def lockTimeThreshold : Int := 500000000

/-- The sequence number of an input that opts out of lock times. -/
def finalSequence : UInt32 := 0xffffffff

/-- Flag: lock time checks are enforced. -/
def checkLockTime : UInt32 := 1

/-- Flag: operations reserved for later upgrades fail. -/
def discourageUpgradable : UInt32 := 2

end LedgerScript.Limits
