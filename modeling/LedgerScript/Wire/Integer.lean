import LedgerScript.Wire.Decoder
import LedgerScript.Wire.Written

/-!
Integers of a fixed width, in either byte order, signed in two's complement or unsigned.

Values are 64-bit signed integers. Widths outside one to eight bytes are refused, and so is an
unsigned eight-byte number that no value can hold.
-/
namespace LedgerScript

inductive ByteOrder where
  | little
  | big
deriving DecidableEq, Repr

structure IntegerFormat where
  order : ByteOrder
  signed : Bool
  width : Nat
deriving DecidableEq, Repr

namespace IntegerFormat

def Supported (format : IntegerFormat) : Prop := 1 ≤ format.width ∧ format.width ≤ 8

instance (format : IntegerFormat) : Decidable format.Supported :=
  inferInstanceAs (Decidable (_ ∧ _))

/-- The smallest number of the format. -/
def lowest (format : IntegerFormat) : Int :=
  if format.signed then -(Bytes.modulus format.width / 2 : Nat) else 0

/-- The largest number of the format. -/
def highest (format : IntegerFormat) : Int :=
  (if format.signed then Bytes.modulus format.width / 2 else Bytes.modulus format.width : Nat) - 1

def Fits (format : IntegerFormat) (value : Int) : Prop :=
  format.lowest ≤ value ∧ value ≤ format.highest

instance (format : IntegerFormat) (value : Int) : Decidable (format.Fits value) :=
  inferInstanceAs (Decidable (_ ∧ _))

/-- Bytes in the order of the format, from least significant first and back. -/
def arrange (format : IntegerFormat) (bytes : Bytes) : Bytes :=
  match format.order with
  | .little => bytes
  | .big => bytes.reverse

/-- The number that the bytes spell. -/
def value (format : IntegerFormat) (bytes : Bytes) : Int :=
  let raw := Bytes.toNatLE (format.arrange bytes)
  if format.signed then Int.bmod raw (Bytes.modulus format.width) else raw

/-- The bytes of a number, taken modulo the number of byte strings. -/
def bytes (format : IntegerFormat) (value : Int) : Bytes :=
  format.arrange (Bytes.ofNatLE format.width (value % Bytes.modulus format.width).toNat)

def unsupported (format : IntegerFormat) (field : String) : Error :=
  .unsupportedEncoding (.integerWidth field format.width)

/-- Reads a number; the name is for messages. -/
def read (format : IntegerFormat) (field : String) : Decoder Int64 :=
  if format.Supported then do
    let value := format.value (← Decoder.take format.width)
    if value ≤ Int64.maxValue.toInt then pure (Int64.ofInt value)
    else throw (.overflow field value format.width)
  else throw (format.unsupported field)

/-- Writes a number; the name is for messages. -/
def write (format : IntegerFormat) (field : String) (value : Int64) : Written :=
  if format.Supported then
    if format.Fits value.toInt then .ofBytes (format.bytes value.toInt)
    else .stop (.overflow field value.toInt format.width)
  else .stop (format.unsupported field)

@[simp] theorem arrange_arrange (format : IntegerFormat) (bytes : Bytes) :
    format.arrange (format.arrange bytes) = bytes := by
  unfold arrange
  split <;> simp

@[simp] theorem length_arrange (format : IntegerFormat) (bytes : Bytes) :
    (format.arrange bytes).length = bytes.length := by
  unfold arrange
  split <;> simp

@[simp] theorem length_bytes (format : IntegerFormat) (value : Int) :
    (format.bytes value).length = format.width := by
  simp [bytes]

end IntegerFormat
end LedgerScript
