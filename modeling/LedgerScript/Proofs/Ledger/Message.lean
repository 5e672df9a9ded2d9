import Mathlib.Data.List.Basic
import LedgerScript.Chain.Preset
import LedgerScript.Proofs.Fallible
import LedgerScript.Proofs.Ledger.Coverage
import LedgerScript.Proofs.Ledger.Encodable
import LedgerScript.Proofs.Script.Deletion

namespace LedgerScript

namespace Sighash.Legacy

/-- The lowest four bytes of a number, least significant first. -/
def le32 (n : Int) : Bytes := Bytes.ofNatLE 4 (n % 2 ^ 32).toNat

/-- The lowest eight bytes of a number, least significant first. -/
def le64 (n : Int) : Bytes := Bytes.ofNatLE 8 (n % 2 ^ 64).toNat

/-- An input: what it spends, a script with its length in front, and a sequence number. -/
def input (outPoint : OutPoint) (script : Bytes) (sequence : UInt32) : Bytes :=
  outPoint.hash.bytes ++ le32 outPoint.index.toNat ++ CompactSize.encodeBytes script ++
    le32 sequence.toNat

/-- An output: an amount, and a script with its length in front. -/
def output (amount : Int) (script : Bytes) : Bytes := le64 amount ++ CompactSize.encodeBytes script

/-- A script code without the operations that separate code. -/
def unseparated (code : Script) (ops : List Operation) : Script :=
  ((ops.filter (·.opcode ≠ 0xab)).map (Script.slice code)).flatten

/-- An input that is not signed for: with an empty script, and with its sequence number only if all
outputs are covered. -/
def otherInput (type : UInt32) (x : Input) : Bytes :=
  input x.outPoint [] (if type &&& 0x1f = 2 ∨ type &&& 0x1f = 3 then 0 else x.sequence)

/-- The inputs: the one that is signed for, with the script code. The others stand around it, or are
left out under the flag of 0x80. -/
def inputs (type : UInt32) (index : Nat) (code : Script) (list : List Input) : List Bytes :=
  let own := list[index]?.toList.map fun x => input x.outPoint code x.sequence
  if type &&& 0x80 ≠ 0 then own
  else (list.take index).map (otherInput type) ++ own ++
    (list.drop (index + 1)).map (otherInput type)

/-- The outputs: all of them, none, or the one beside the input behind as many blank ones as there
are before it. -/
def outputs (type : UInt32) (index : Nat) (list : List Output) : List Bytes :=
  if type &&& 0x1f = 2 then []
  else if type &&& 0x1f = 3 then
    List.replicate index (output (-1) []) ++
      list[index]?.toList.map fun x => output x.amount.toInt x.script
  else list.map fun x => output x.amount.toInt x.script

/-- Parts with their number in front. -/
def counted (parts : List Bytes) : Bytes := CompactSize.encode parts.length ++ parts.flatten

/-- What is hashed for an input. -/
def message (version lockTime : Int) (ins : List Input) (outs : List Output) (index : Nat)
    (code : Script) (type : UInt32) : Bytes :=
  le32 version ++ counted (inputs type index code ins) ++ counted (outputs type index outs) ++
    le32 lockTime ++ le32 type.toNat

end Sighash.Legacy

open Sighash.Legacy

theorem word32_eq (n : UInt32) : word32 n = le32 n.toNat := by
  have below := n.toNat_lt
  have same : ((n.toNat : Int) % 2 ^ 32).toNat = n.toNat := by omega
  rw [word32, le32, same]

theorem word64_eq (n : Int64) : word64 n = le64 n.toInt := by
  have below := n.toUInt64.toNat_lt
  have same : n.toInt % 2 ^ 64 = n.toUInt64.toNat := by
    rw [← Int64.toInt_toBitVec, BitVec.toInt_eq_toNat_bmod, Int64.toNat_toBitVec]
    have congruent := @Int.bmod_emod n.toUInt64.toNat (2 ^ 64)
    omega
  rw [word64, le64, same, Int.toNat_natCast]

theorem IntegerFormat.bytes_eq_le32 (signed : Bool) (n : Int) :
    bytes ⟨.little, signed, 4⟩ n = le32 n := rfl

theorem Input.encode_eq (x : Input) : x.encode = input x.outPoint x.script x.sequence := by
  rw [encode, word32_eq, word32_eq, input]

theorem Output.encode_eq (x : Output) : x.encode = output x.amount.toInt x.script := by
  rw [encode, word64_eq, output]

namespace HashType

variable {type : UInt32}

theorem isNone_iff : isNone ⟨type⟩ = true ↔ type &&& 0x1f = 2 := by
  rw [isNone, beq_iff_eq]

theorem isSingle_iff : isSingle ⟨type⟩ = true ↔ type &&& 0x1f = 3 := by
  rw [isSingle, beq_iff_eq]

theorem isAlone_iff : isAlone ⟨type⟩ = true ↔ type &&& 0x80 ≠ 0 := by
  rw [isAlone, bne_iff_ne]

end HashType

namespace Sighash

open HashType

variable {type : UInt32} {index : Nat} {code : Script}

theorem encode_signedInput_own (x : Input) :
    (signedInput ⟨type⟩ index code index x).encode = input x.outPoint code x.sequence := by
  rw [Input.encode_eq, signedInput, if_pos rfl]

theorem encode_signedInput_other {i : Nat} (other : i ≠ index) (x : Input) :
    (signedInput ⟨type⟩ index code i x).encode = otherInput type x := by
  rw [Input.encode_eq, signedInput, if_neg other, otherInput]
  simp only [Bool.or_eq_true, isNone_iff, isSingle_iff]
  split <;> rfl

theorem map_encode_mapIdx_other {list : List Input} {place : Nat → Nat}
    (others : ∀ i < list.length, place i ≠ index) :
    (list.mapIdx fun i => signedInput ⟨type⟩ index code (place i)).map Input.encode =
      list.map (otherInput type) := by
  refine List.ext_getElem (by simp) fun i inLeft inRight => ?_
  have bound : i < list.length := by simpa using inRight
  rw [List.getElem_map, List.getElem_mapIdx, List.getElem_map,
    encode_signedInput_other (others i bound)]

/-- Inputs are written as the parts of the message, if there is one that is signed for. -/
theorem map_encode_signedInputs {list : List Input} (inRange : index < list.length) :
    (signedInputs ⟨type⟩ index code list).map Input.encode = inputs type index code list := by
  -- the list is cut at the input that is signed for
  obtain ⟨before, x, after, rfl, rfl⟩ :
      ∃ before x after, list = before ++ x :: after ∧ before.length = index := by
    obtain ⟨before, after, order, place⟩ :=
      Fallible.getElem?_eq_some_iff.mp (List.getElem?_eq_getElem inRange)
    exact ⟨before, _, after, order, place⟩
  have own : (before ++ x :: after)[before.length]? = some x := by simp
  rw [inputs, own]
  by_cases alone : type &&& 0x80 ≠ 0
  · rw [signedInputs_of_isAlone (isAlone_iff.mpr alone) own, if_pos alone, List.map_singleton,
      encode_signedInput_own, Option.toList_some, List.map_singleton]
  · have many : HashType.isAlone ⟨type⟩ = false := by
      rwa [← Bool.not_eq_true, isAlone_iff]
    have front : (before.mapIdx (signedInput ⟨type⟩ before.length code)).map Input.encode =
        before.map (otherInput type) :=
      @map_encode_mapIdx_other type before.length code before (fun i => i)
        fun i bound => Nat.ne_of_lt bound
    have back := @map_encode_mapIdx_other type before.length code after
      (fun i => i + 1 + before.length) fun i _ => by omega
    rw [if_neg alone, signedInputs, many, if_neg Bool.false_ne_true, List.mapIdx_append,
      List.mapIdx_cons, List.map_append, List.map_cons, front, back, Nat.zero_add,
      encode_signedInput_own]
    simp

/-- Outputs are written as the parts of the message, unless the one beside the input is missing. -/
theorem map_encode_signedOutputs {list : List Output} (paired : Paired ⟨type⟩ index list) :
    (signedOutputs ⟨type⟩ index list).map Output.encode = outputs type index list := by
  have encoded : Output.encode = fun x => output x.amount.toInt x.script :=
    funext Output.encode_eq
  rw [encoded]
  unfold signedOutputs outputs
  simp only [isNone_iff, isSingle_iff]
  by_cases nothing : type &&& 0x1f = 2
  · rw [if_pos nothing, if_pos nothing, List.map_nil]
  by_cases single : type &&& 0x1f = 3
  · have bound : index < list.length := paired (isSingle_iff.mpr single)
    rw [if_neg nothing, if_neg nothing, if_pos single, if_pos single,
      Nat.min_eq_left (Nat.le_of_lt bound), List.take_one, List.head?_drop, List.map_append,
      List.map_replicate]
    rfl
  · rw [if_neg nothing, if_neg nothing, if_neg single, if_neg single]

end Sighash

/-- A record that is written has a number in each field of numbers. -/
theorem Record.exists_int_of_write {record : Record} {b : Bytes}
    (written : record.write = .ofBytes b) {field : Field} {format : IntegerFormat}
    (member : field ∈ record.schema.fields) (encoding : field.encoding = .integer format) :
    ∃ n, record.get? field.name = some (.int n) ∧
      (Value.int n).write field = .ofBytes (format.bytes n.toInt) := by
  rw [write_eq] at written
  obtain ⟨c, part, -⟩ := Written.length_le_of_mem (List.mem_map_of_mem member) written
  obtain ⟨value, found, writes⟩ := writes_of_writeField part
  cases writes with
  | @integer _ n _ own fits =>
    cases encoding.symm.trans own
    obtain ⟨-, -, rfl⟩ := IntegerFormat.write_eq_ofBytes_iff.mp fits
    refine ⟨n, ?_, ?_⟩
    · rw [record.get?_of_mem (List.mem_map_of_mem member), found]
    · simpa only [Value.write, encoding] using fits
  | fixed own | counted own | inputs own | outputs own | transactions own =>
    cases encoding.symm.trans own

namespace Sighash

open HashType

variable {tx : Record} {index : Nat} {code : Script} {type : UInt32} {b : Bytes}

theorem apart_of_integer {schema : Schema} {field : Field} {format : IntegerFormat}
    (encoding : field.encoding = .integer format) : Apart schema field := by
  constructor <;>
  · intro found
    rw [(Schema.mem_of_fieldWith? found).2] at encoding
    cases encoding

/-- Whatever is signed for, the copy has the numbers of the transaction. -/
theorem writeField_signed_integer {ins outs : Field} (lists : tx.schema.Lists ins outs)
    (written : tx.write = .ofBytes b) {field : Field} (member : field ∈ tx.schema.fields)
    {format : IntegerFormat} (encoding : field.encoding = .integer format) :
    ∃ n, tx.get? field.name = some (.int n) ∧ ∀ index code type,
      (signed ins outs tx index code type).writeField field = .ofBytes (format.bytes n.toInt) := by
  obtain ⟨n, own, fits⟩ := Record.exists_int_of_write written member encoding
  refine ⟨n, own, fun index code type => ?_⟩
  have kept : (signed ins outs tx index code type).get? field.name = some (.int n) :=
    (get?_signed_apart lists member (apart_of_integer encoding)).trans own
  exact (Record.writeField_of_get? kept).trans fits

/-- The lists of a Bitcoin transaction. -/
theorem lists_bitcoin (layout : tx.schema = Preset.bitcoinTransaction) :
    tx.schema.Lists (.empty "vin" .inputs) (.empty "vout" .outputs) := by
  rw [layout]
  exact ⟨by decide, rfl, rfl⟩

theorem writeField_signed_inputs (layout : tx.schema = Preset.bitcoinTransaction)
    (inRange : index < tx.inputs.length) :
    (signed (.empty "vin" .inputs) (.empty "vout" .outputs) tx index code ⟨type⟩).writeField
        (.empty "vin" .inputs) = .ofBytes (counted (inputs type index code tx.inputs)) := by
  rw [Record.writeField_of_get? (get?_signed_inputs (lists_bitcoin layout)), counted,
    ← map_encode_signedInputs inRange, List.length_map, ← List.flatMap_def]
  rfl

theorem writeField_signed_outputs (layout : tx.schema = Preset.bitcoinTransaction)
    (paired : Paired ⟨type⟩ index tx.outputs) :
    (signed (.empty "vin" .inputs) (.empty "vout" .outputs) tx index code ⟨type⟩).writeField
        (.empty "vout" .outputs) = .ofBytes (counted (outputs type index tx.outputs)) := by
  rw [Record.writeField_of_get? (get?_signed_outputs (lists_bitcoin layout)), counted,
    ← map_encode_signedOutputs paired, List.length_map, ← List.flatMap_def]
  rfl

/-- The copy is written as the message up to the hash type. -/
theorem write_signed_bitcoin (layout : tx.schema = Preset.bitcoinTransaction)
    (written : tx.write = .ofBytes b) :
    ∃ version lockTime, tx.version? = some version ∧ tx.lockTime? = some lockTime ∧
      ∀ index code type, index < tx.inputs.length → Paired ⟨type⟩ index tx.outputs →
        (signed (.empty "vin" .inputs) (.empty "vout" .outputs) tx index code ⟨type⟩).write =
          .ofBytes (le32 version.toInt ++ counted (inputs type index code tx.inputs) ++
            counted (outputs type index tx.outputs) ++ le32 lockTime.toInt) := by
  have fields : tx.schema.fields = [.integer "nVersion" true 4 1, .empty "vin" .inputs,
      .empty "vout" .outputs, .integer "nLockTime" false 4 0] := by
    rw [layout]
    rfl
  have lists := lists_bitcoin layout
  have hasVersion : .integer "nVersion" true 4 1 ∈ tx.schema.fields := by simp [fields]
  have hasLockTime : .integer "nLockTime" false 4 0 ∈ tx.schema.fields := by simp [fields]
  obtain ⟨version, ownVersion, copyVersion⟩ :=
    writeField_signed_integer lists written hasVersion rfl
  obtain ⟨lockTime, ownLockTime, copyLockTime⟩ :=
    writeField_signed_integer lists written hasLockTime rfl
  refine ⟨version, lockTime, congrArg (·.bind Value.asInt?) ownVersion,
    congrArg (·.bind Value.asInt?) ownLockTime, fun index code type inRange paired => ?_⟩
  rw [Record.write_eq]
  change Written.concat (tx.schema.fields.map _) = _
  rw [fields]
  simp only [List.map_cons, List.map_nil, copyVersion, copyLockTime,
    writeField_signed_inputs layout inRange, writeField_signed_outputs layout paired,
    IntegerFormat.bytes_eq_le32, Written.concat_cons, Written.concat_nil, Written.ofBytes_append]
  simp only [Written.ofBytes, List.append_nil, List.append_assoc]

/-- **The digest is that of the message.** A Bitcoin transaction that can be written has a version
and a lock time, and signing for an input hashes them with the inputs and the outputs as the hash
type says. Where an output is to be covered alone and is missing, the digest is the number one. -/
theorem digest_eq_legacy (layout : tx.schema = Preset.bitcoinTransaction) {written : Bytes}
    (serializable : tx.toBytes = .ok written) (inRange : index < tx.inputs.length)
    {ops : List Operation} (split : code.operations = .ok ops) (type : UInt32) :
    ∃ version lockTime, tx.version? = some version ∧ tx.lockTime? = some lockTime ∧
      (digest tx index code ⟨type⟩).map Hash.bytes =
        .ok (if type &&& 0x1f = 3 ∧ tx.outputs.length ≤ index then 1 :: List.replicate 31 0
          else
            Digest.hash256 (Legacy.message version.toInt lockTime.toInt tx.inputs tx.outputs index
              (unseparated code ops) type)) := by
  have stripped : code.withoutOpcode Opcode.codeSeparator = .ok (unseparated code ops) :=
    Script.withoutOpcode_eq split rfl
  have missing : ¬Paired ⟨type⟩ index tx.outputs ↔
      type &&& 0x1f = 3 ∧ tx.outputs.length ≤ index := by
    rw [Paired, isSingle_iff, Classical.not_imp, Nat.not_lt]
  obtain ⟨version, lockTime, hasVersion, hasLockTime, copied⟩ :=
    write_signed_bitcoin layout (Written.toExcept_eq_ok_iff.mp serializable)
  refine ⟨version, lockTime, hasVersion, hasLockTime, ?_⟩
  by_cases paired : Paired ⟨type⟩ index tx.outputs
  · have hashed : preimage tx index code ⟨type⟩ =
        .ok (Legacy.message version.toInt lockTime.toInt tx.inputs tx.outputs index
          (unseparated code ops) type) := by
      have bytes := Written.toExcept_eq_ok_iff.mpr
        (copied index (unseparated code ops) type inRange paired)
      rw [preimage_eq (lists_bitcoin layout), stripped, Legacy.message, ← word32_eq]
      simp only [Record.toBytes, bytes, bind, Except.bind, pure, Except.pure]
    rw [Hashed.digest_eq ⟨inRange, paired, hashed⟩,
      if_neg (mt missing.mpr (not_not_intro paired))]
    rfl
  · rw [digest_of_unpaired inRange paired, if_pos (missing.mp paired)]
    rfl

/-- A transaction of two inputs and two outputs. -/
def twoByTwo : Record :=
  ⟨Preset.bitcoinTransaction, [("nVersion", .int (-1)),
    ("vin", .inputs [⟨.null, [0x51], 5⟩, ⟨⟨.zero, 1⟩, [], 9⟩]),
    ("vout", .outputs [⟨50, [0x51]⟩, ⟨40, [0xac]⟩]), ("nLockTime", .int 0xffffffff)]⟩

/-- The second input is signed for together with the output beside it. -/
theorem digest_eq_legacy_single :
    (digest twoByTwo 1 [0xab, 0xac] ⟨3⟩).map Hash.bytes = .ok (Digest.hash256
      ([0xff, 0xff, 0xff, 0xff, 2] ++ Hash.zero.bytes ++
        [0xff, 0xff, 0xff, 0xff, 0, 0, 0, 0, 0] ++ Hash.zero.bytes ++
        [1, 0, 0, 0, 1, 0xac, 9, 0, 0, 0, 2] ++ List.replicate 8 0xff ++
        [0, 40, 0, 0, 0, 0, 0, 0, 0, 1, 0xac, 0xff, 0xff, 0xff, 0xff, 3, 0, 0, 0])) := by
  have split : Script.operations [0xab, 0xac] = .ok [⟨0, 1, 0xab, none⟩, ⟨1, 2, 0xac, none⟩] := rfl
  have written : ∃ b, twoByTwo.toBytes = .ok b := ⟨_, rfl⟩
  obtain ⟨b, serializable⟩ := written
  obtain ⟨version, lockTime, hasVersion, hasLockTime, hashed⟩ :=
    @digest_eq_legacy twoByTwo 1 [0xab, 0xac] rfl _ serializable (by decide) _ split 3
  cases hasVersion
  cases hasLockTime
  exact hashed

end Sighash
end LedgerScript
