import LedgerScript.Machine.Limits
import LedgerScript.Text.Hex

namespace LedgerScript

/-- Why a field's encoding is not supported. -/
inductive EncodingFault where
  | integerWidth (field : String) (width : Nat)
  | unknownFormat (format : String)
  | widthDisagrees (format : String) (reads declared : Nat)
deriving DecidableEq, Repr

/-- Why an operation that was found in the table failed. -/
inductive OperationFault where
  | discouraged
  | reserved
  | disabled
  | unspendable
  | endWithoutBranch
  | falseItem (item : Bytes)
  | indexOutOfRange (index : Int) (items : Nat)
  | unequal (left right : Bytes)
  | unequalNumbers (left right : Int)
  | countOutOfRange (what : String) (count : Int)
  | tooManyOperations
  | signatureWithoutTransaction
  | invalidSignature
  | invalidSignatures (needed keys : Nat)
  | lockTimeWithoutTransaction
  | negativeLockTime (lock : Int)
  | lockTimeKinds (lock transactionLock : Int)
  | lockTimeNotReached (lock transactionLock : Int)
  | noInput (index : Nat)
  | finalInput
deriving DecidableEq, Repr

/-- Why a script failed to run. -/
inductive ScriptFault where
  | inputOutOfRange (index inputs : Nat)
  | tooManyOperations
  | pushTooLong (size : Nat)
  | stackTooLarge (items : Nat)
  | scriptTooLong (size : Nat)
  | unbalanced
  | elseWithoutBranch
  | numberTooLong (size limit : Nat)
  | operation (name : String) (fault : OperationFault)
deriving DecidableEq, Repr

/-- Why a token of a script's text was refused. -/
inductive TokenFault where
  | badLiteral (token : String) (fault : Hex.Fault)
  | unrecognized (token : String)
deriving DecidableEq, Repr

/-- Why a declared default was refused. -/
inductive DefaultFault where
  | notInteger
  | unsupported (text : String)
deriving DecidableEq, Repr

/-- Why a template could not be filled. -/
inductive TemplateFault where
  | noSlot (template var : String)
  | missingValue (var : String)
  | badAddress (var : String)
deriving DecidableEq, Repr

inductive Error where
  | unknownPreset (name : String)
  | truncated (needed remaining : Nat)
  | unsupportedEncoding (fault : EncodingFault)
  | overflow (field : String) (value : Int) (width : Nat)
  | unknownOpcode (value : UInt8)
  | underflow (operation : String) (needed available : Nat)
  | script (fault : ScriptFault)
  | duplicateField (name : String)
  | unknownField (name : String)
  | typeMismatch (field expected : String)
  | lengthMismatch (field : String) (expected actual : Nat)
  | trailing (count : Nat)
  | scriptText (fault : TokenFault)
  | hex (fault : Hex.Fault)
  | unknownHandler (name : String)
  | malformedDefinition
  | unusableDefault (field : String) (fault : DefaultFault)
  | template (fault : TemplateFault)
  | missingFile
deriving DecidableEq, Repr

/-- An item as messages show it. -/
def showItem (item : Bytes) : String :=
  if item = [] then "(empty)" else "0x" ++ Hex.encode item

def EncodingFault.message : EncodingFault → String
  | .integerWidth field width => s!"field {field} declares a {width}-byte integer"
  | .unknownFormat format => s!"format '{format}'"
  | .widthDisagrees format reads declared =>
    s!"format '{format}' reads {reads} bytes, field declares {declared}"

def OperationFault.message : OperationFault → String
  | .discouraged => "upgradable NOP is discouraged"
  | .reserved => "reserved opcode"
  | .disabled => "disabled opcode"
  | .unspendable => "script marked unspendable"
  | .endWithoutBranch => "OP_ENDIF without OP_IF"
  | .falseItem item => s!"top item {showItem item} is false"
  | .indexOutOfRange index items => s!"index {index} out of range for stack of {items} items"
  | .unequal left right => s!"{showItem left} does not equal {showItem right}"
  | .unequalNumbers left right => s!"{left} is not numerically equal to {right}"
  | .countOutOfRange what count => s!"{what} count {count} out of range"
  | .tooManyOperations => "operation limit exceeded"
  | .signatureWithoutTransaction => "signature checks need a transaction context"
  | .invalidSignature => "invalid signature"
  | .invalidSignatures needed keys => s!"{needed}-of-{keys} signatures invalid"
  | .lockTimeWithoutTransaction => "lock time checks need a transaction context"
  | .negativeLockTime lock => s!"negative lock time {lock}"
  | .lockTimeKinds lock transactionLock =>
    s!"lock time {lock} and transaction lock time {transactionLock} are of different kinds"
  | .lockTimeNotReached lock transactionLock =>
    s!"lock time {lock} not reached by transaction lock time {transactionLock}"
  | .noInput index => s!"no input at index {index}"
  | .finalInput => "input sequence is final, lock time is not enforced"

def ScriptFault.message : ScriptFault → String
  | .inputOutOfRange index inputs => s!"input index {index} out of range for {inputs} inputs"
  | .tooManyOperations => s!"operation limit of {Limits.operations} exceeded"
  | .pushTooLong size => s!"push of {size} bytes exceeds {Limits.itemSize} bytes"
  | .stackTooLarge items => s!"stack size {items} exceeds {Limits.stackItems}"
  | .scriptTooLong size => s!"script of {size} bytes exceeds {Limits.scriptSize} bytes"
  | .unbalanced => "unbalanced conditional"
  | .elseWithoutBranch => "OP_ELSE without OP_IF"
  | .numberTooLong size limit => s!"numeric operand of {size} bytes exceeds {limit} bytes"
  | .operation name fault => s!"{name}: {fault.message}"

def TokenFault.message : TokenFault → String
  | .badLiteral token fault => s!"invalid push literal '{token}': {fault.message}"
  | .unrecognized token => s!"unrecognized token '{token}'"

def DefaultFault.message (field : String) : DefaultFault → String
  | .notInteger => s!"default for '{field}' is not a 64-bit integer"
  | .unsupported text => s!"unsupported default {text} for '{field}'"

def TemplateFault.message : TemplateFault → String
  | .noSlot template var => s!"template '{template}' has no variable <{var}>"
  | .missingValue var => s!"missing value for <{var}>"
  | .badAddress var => s!"could not decode <{var}> address"

def Error.message : Error → String
  | .unknownPreset name => s!"Unknown chainparams preset: {name}"
  | .truncated needed remaining =>
    s!"Truncated input: needed {needed} bytes, {remaining} remaining"
  | .unsupportedEncoding fault => s!"Unsupported encoding: {fault.message}"
  | .overflow field value width =>
    s!"Integer overflow: {value} does not fit field {field} ({width} bytes)"
  | .unknownOpcode value => s!"Unknown opcode: 0x{Hex.encode [value]}"
  | .underflow operation needed available =>
    s!"Stack underflow: {operation} needs {needed} items, stack has {available}"
  | .script fault => s!"Script execution failed: {fault.message}"
  | .duplicateField name => s!"Invalid schema: duplicate field name '{name}'"
  | .unknownField name => s!"Unknown field: {name}"
  | .typeMismatch field expected => s!"Field {field} expects {expected}"
  | .lengthMismatch field expected actual =>
    s!"Field {field} is fixed at {expected} bytes, value has {actual}"
  | .trailing count => s!"Trailing data: {count} bytes left after decoding"
  | .scriptText fault => s!"Script parse error: {fault.message}"
  | .hex fault => s!"Invalid hex: {fault.message}"
  | .unknownHandler name => s!"Unknown opcode handler: {name}"
  | .malformedDefinition => "Invalid preset definition"
  | .unusableDefault field fault => s!"Invalid preset definition: {fault.message field}"
  | .template fault => s!"Template error: {fault.message}"
  | .missingFile => "File not found"

end LedgerScript
