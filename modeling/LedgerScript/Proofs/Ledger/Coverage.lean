import LedgerScript.Ledger.Sighash
import LedgerScript.Proofs.Ledger.Flat

namespace LedgerScript

/-- Where no name stands twice, the first field of an encoding takes every value of its kind. -/
theorem Record.setWith_eq_ok {schema : Schema} (unique : schema.names.Nodup)
    {encoding : Encoding} {field : Field} (found : schema.fieldWith? encoding = some field)
    (word : String) {value : Value} (kind : encoding.accepts value = true)
    (values : List (String × Value)) :
    setWith ⟨schema, values⟩ encoding word value =
      .ok ⟨schema, Assoc.put field.name value values⟩ := by
  obtain ⟨member, rfl⟩ := Schema.mem_of_fieldWith? found
  simp only [setWith, found, set, Schema.field?_of_mem unique member, kind, if_true]

/-- The first fields of inputs and of outputs, each known by its name. -/
structure Schema.Lists (schema : Schema) (ins outs : Field) : Prop where
  unique : schema.names.Nodup
  inputs : schema.fieldWith? .inputs = some ins
  outputs : schema.fieldWith? .outputs = some outs

theorem Schema.Lists.name_ne {schema : Schema} {ins outs : Field} (h : schema.Lists ins outs) :
    ins.name ≠ outs.name := by
  obtain ⟨hins, encodesIns⟩ := Schema.mem_of_fieldWith? h.inputs
  obtain ⟨houts, encodesOuts⟩ := Schema.mem_of_fieldWith? h.outputs
  intro same
  rw [Schema.eq_of_name_eq h.unique hins houts same, encodesOuts] at encodesIns
  cases encodesIns

namespace Sighash

variable {type : HashType} {index : Nat} {code code' : Script}

/-- The inputs agree in what is covered of them: all of the input signed for but its script, and
unless it is signed alone what the others spend, together with their sequence numbers if all outputs
are signed. -/
structure SameInputs (type : HashType) (index : Nat) (a b : List Input) : Prop where
  own : ∃ x y, a[index]? = some x ∧ b[index]? = some y ∧ x.outPoint = y.outPoint ∧
    x.sequence = y.sequence
  outPoints : type.isAlone = false → a.map Input.outPoint = b.map Input.outPoint
  sequences : type.isAlone = false → type.isNone = false → type.isSingle = false →
    a.map Input.sequence = b.map Input.sequence

/-- The outputs agree in what is covered of them: all of them, none, or the one beside the input. -/
structure SameOutputs (type : HashType) (index : Nat) (a b : List Output) : Prop where
  all : type.isNone = false → type.isSingle = false → a = b
  beside : type.isSingle = true → a[index]? = b[index]?

/-- The field is neither the first of inputs nor the first of outputs. -/
def Apart (schema : Schema) (field : Field) : Prop :=
  schema.fieldWith? .inputs ≠ some field ∧ schema.fieldWith? .outputs ≠ some field

/-- Two transactions of a schema agree in all that a hash type covers for an input. -/
structure SameCovered (schema : Schema) (type : HashType) (index : Nat) (a b : Record) : Prop where
  inputs : SameInputs type index a.inputs b.inputs
  outputs : SameOutputs type index a.outputs b.outputs
  others : ∀ field ∈ schema.fields, Apart schema field →
    agree (a.get? field.name) (b.get? field.name) = true

/-- An output that is to be covered alone is there. -/
def Paired (type : HashType) (index : Nat) (outputs : List Output) : Prop :=
  type.isSingle = true → index < outputs.length

theorem SameInputs.lt {a b : List Input} (same : SameInputs type index a b) :
    index < a.length ∧ index < b.length := by
  obtain ⟨x, y, hx, hy, -⟩ := same.own
  exact ⟨(List.getElem?_eq_some_iff.mp hx).1, (List.getElem?_eq_some_iff.mp hy).1⟩

theorem SameOutputs.paired_iff {a b : List Output} (same : SameOutputs type index a b) :
    Paired type index a ↔ Paired type index b := by
  unfold Paired
  refine forall_congr' fun single => ?_
  rw [← Nat.not_le, ← Nat.not_le, ← List.getElem?_eq_none_iff, ← List.getElem?_eq_none_iff,
    same.beside single]

theorem isSingle_of_isNone (h : type.isNone = true) : type.isSingle = false := by
  have two : type.word &&& 0x1f = 2 := by simpa [HashType.isNone] using h
  simp only [HashType.isSingle, two]
  rfl

/-- What two inputs at one place must share to be signed alike. -/
theorem signedInput_eq_iff {i : Nat} {x y : Input} :
    signedInput type index code i x = signedInput type index code' i y ↔
      x.outPoint = y.outPoint ∧ (i = index → code = code') ∧
      (i = index ∨ type.isNone = false ∧ type.isSingle = false → x.sequence = y.sequence) := by
  obtain ⟨outPoint, script, sequence⟩ := x
  obtain ⟨outPoint', script', sequence'⟩ := y
  unfold signedInput
  by_cases own : i = index
  · simp [own]
  · cases hn : type.isNone <;> cases hs : type.isSingle <;> simp [own]

theorem signedInputs_of_isAlone (alone : type.isAlone = true) {inputs : List Input} {x : Input}
    (found : inputs[index]? = some x) :
    signedInputs type index code inputs = [signedInput type index code index x] := by
  simp only [signedInputs, alone, if_true, List.take_one, List.head?_drop, List.getElem?_mapIdx,
    found, Option.map_some, Option.toList_some]

/-- What two lists of inputs must share to be signed alike, place by place. -/
theorem mapIdx_signedInput_eq_iff {a b : List Input} :
    a.mapIdx (signedInput type index code) = b.mapIdx (signedInput type index code') ↔
      a.length = b.length ∧ ∀ i (ha : i < a.length) (hb : i < b.length),
        a[i].outPoint = b[i].outPoint ∧ (i = index → code = code') ∧
        (i = index ∨ type.isNone = false ∧ type.isSingle = false →
          a[i].sequence = b[i].sequence) := by
  rw [List.ext_getElem_iff]
  simp only [List.length_mapIdx, List.getElem_mapIdx, signedInput_eq_iff]

/-- Inputs are signed alike if they agree in what is covered, and only for one script code. -/
theorem signedInputs_eq_iff {a b : List Input} (ha : index < a.length) (hb : index < b.length) :
    signedInputs type index code a = signedInputs type index code' b ↔
      code = code' ∧ SameInputs type index a b := by
  have ownA := List.getElem?_eq_getElem ha
  have ownB := List.getElem?_eq_getElem hb
  cases alone : type.isAlone with
  | true =>
    -- the input signed for is the whole list
    rw [signedInputs_of_isAlone alone ownA, signedInputs_of_isAlone alone ownB]
    simp only [List.cons.injEq, and_true, signedInput_eq_iff, true_or, forall_const]
    constructor
    · rintro ⟨outPoint, rfl, sequence⟩
      exact ⟨rfl, ⟨_, _, ownA, ownB, outPoint, sequence⟩, by simp [alone], by simp [alone]⟩
    · rintro ⟨rfl, ⟨x, y, hx, hy, outPoint, sequence⟩, -, -⟩
      cases ownA.symm.trans hx
      cases ownB.symm.trans hy
      exact ⟨outPoint, rfl, sequence⟩
  | false =>
    have pointwise {α : Type} (f : Input → α) : a.map f = b.map f ↔ a.length = b.length ∧
        ∀ i (ha : i < a.length) (hb : i < b.length), f a[i] = f b[i] := by
      simp only [List.ext_getElem_iff, List.length_map, List.getElem_map]
    simp only [signedInputs, alone, if_false, Bool.false_eq_true, mapIdx_signedInput_eq_iff]
    constructor
    · rintro ⟨length, each⟩
      obtain ⟨outPoint, code, sequence⟩ := each index ha hb
      exact ⟨code rfl, ⟨_, _, ownA, ownB, outPoint, sequence (.inl rfl)⟩,
        fun _ => (pointwise _).mpr ⟨length, fun i hi hj => (each i hi hj).1⟩,
        fun _ all many => (pointwise _).mpr
          ⟨length, fun i hi hj => (each i hi hj).2.2 (.inr ⟨all, many⟩)⟩⟩
    · rintro ⟨rfl, ⟨x, y, hx, hy, -, sequence⟩, outPoints, sequences⟩
      obtain ⟨length, outPoint⟩ := (pointwise _).mp (outPoints alone)
      refine ⟨length, fun i hi hj => ⟨outPoint i hi hj, fun _ => rfl, ?_⟩⟩
      rintro (rfl | ⟨all, many⟩)
      · cases ownA.symm.trans hx
        cases ownB.symm.trans hy
        exact sequence
      · exact ((pointwise _).mp (sequences alone all many)).2 i hi hj

/-- Outputs are signed alike if they agree in what is covered. -/
theorem signedOutputs_eq_iff {a b : List Output} (ha : Paired type index a)
    (hb : Paired type index b) :
    signedOutputs type index a = signedOutputs type index b ↔ SameOutputs type index a b := by
  cases nothing : type.isNone with
  | true =>
    have single := isSingle_of_isNone nothing
    simp only [signedOutputs, nothing, if_true, true_iff]
    exact ⟨by simp [nothing], by simp [single]⟩
  | false =>
    cases single : type.isSingle with
    | true =>
      have beside {list : List Output} (h : index < list.length) :
          signedOutputs type index list = List.replicate index blankOutput ++ [list[index]] := by
        simp [signedOutputs, nothing, single, List.take_one, h, Nat.min_eq_left (Nat.le_of_lt h)]
      rw [beside (ha single), beside (hb single)]
      constructor
      · intro same
        refine ⟨by simp [single], fun _ => ?_⟩
        simpa [ha single, hb single] using same
      · rintro ⟨-, same⟩
        simpa [ha single, hb single] using same single
    | false =>
      simp only [signedOutputs, nothing, single, if_false, Bool.false_eq_true]
      exact ⟨fun same => ⟨fun _ _ => same, by simp [single]⟩, fun same => same.all nothing single⟩

/-- The transaction with its lists as they are signed. -/
def signed (ins outs : Field) (tx : Record) (index : Nat) (code : Script) (type : HashType) :
    Record :=
  let withInputs := Assoc.put ins.name (.inputs (signedInputs type index code tx.inputs)) tx.values
  ⟨tx.schema, Assoc.put outs.name (.outputs (signedOutputs type index tx.outputs)) withInputs⟩

section

variable {ins outs : Field} {tx : Record}

theorem get?_signed {name : String} (member : name ∈ tx.schema.names) :
    (signed ins outs tx index code type).get? name =
      if name = outs.name then some (.outputs (signedOutputs type index tx.outputs))
      else if name = ins.name then some (.inputs (signedInputs type index code tx.inputs))
      else tx.get? name := by
  rw [Record.get?_of_mem (signed ins outs tx index code type) member, tx.get?_of_mem member]
  simp only [signed, Assoc.lookup_put]

theorem get?_signed_outputs (lists : tx.schema.Lists ins outs) :
    (signed ins outs tx index code type).get? outs.name =
      some (.outputs (signedOutputs type index tx.outputs)) := by
  rw [get?_signed (List.mem_map_of_mem (Schema.mem_of_fieldWith? lists.outputs).1), if_pos rfl]

theorem get?_signed_inputs (lists : tx.schema.Lists ins outs) :
    (signed ins outs tx index code type).get? ins.name =
      some (.inputs (signedInputs type index code tx.inputs)) := by
  rw [get?_signed (List.mem_map_of_mem (Schema.mem_of_fieldWith? lists.inputs).1),
    if_neg lists.name_ne, if_pos rfl]

theorem get?_signed_apart (lists : tx.schema.Lists ins outs) {field : Field}
    (member : field ∈ tx.schema.fields) (apart : Apart tx.schema field) :
    (signed ins outs tx index code type).get? field.name = tx.get? field.name := by
  have differs {encoding : Encoding} {other : Field}
      (found : tx.schema.fieldWith? encoding = some other)
      (ne : tx.schema.fieldWith? encoding ≠ some field) : field.name ≠ other.name := by
    intro same
    rw [Schema.eq_of_name_eq lists.unique member (Schema.mem_of_fieldWith? found).1 same] at ne
    exact ne found
  rw [get?_signed (List.mem_map_of_mem member), if_neg (differs lists.outputs apart.2),
    if_neg (differs lists.inputs apart.1)]

end

theorem setInputs_eq {ins : Field} {tx : Record} (unique : tx.schema.names.Nodup)
    (found : tx.schema.fieldWith? .inputs = some ins) (list : List Input) :
    tx.setInputs list = .ok ⟨tx.schema, Assoc.put ins.name (.inputs list) tx.values⟩ :=
  Record.setWith_eq_ok unique found "inputs" rfl tx.values

/-- What is hashed are the bytes of the copy and the hash type. -/
theorem preimage_eq {ins outs : Field} {tx : Record} (lists : tx.schema.Lists ins outs) :
    preimage tx index code type = (do
      let code ← code.withoutOpcode Opcode.codeSeparator
      let bytes ← (signed ins outs tx index code type).toBytes
      pure (bytes ++ word32 type.word)) := by
  have setOuts (values : List (String × Value)) (list : List Output) :
      Record.setOutputs ⟨tx.schema, values⟩ list =
        .ok ⟨tx.schema, Assoc.put outs.name (.outputs list) values⟩ :=
    Record.setWith_eq_ok lists.unique lists.outputs "outputs" rfl values
  simp only [preimage, setInputs_eq lists.unique lists.inputs, bind, Except.bind, setOuts, signed]

/-- Without a field of outputs nothing is hashed. -/
theorem preimage_of_no_outputs {ins : Field} {tx : Record} (unique : tx.schema.names.Nodup)
    (found : tx.schema.fieldWith? .inputs = some ins)
    (missing : tx.schema.fieldWith? .outputs = none) :
    preimage tx index code type =
      (code.withoutOpcode Opcode.codeSeparator >>= fun _ => .error (.unknownField "outputs")) := by
  simp only [preimage, setInputs_eq unique found, bind, Except.bind, Record.setOutputs,
    Record.setWith, missing]

theorem fieldWith?_of_inputs {tx : Record} (some : index < tx.inputs.length) :
    ∃ ins, tx.schema.fieldWith? .inputs = .some ins := by
  cases found : tx.schema.fieldWith? .inputs with
  | none => simp [Record.inputs, Record.getWith?, found] at some
  | some ins => exact ⟨ins, rfl⟩

/-- Transactions that agree in all that is covered are copied to what is written alike. -/
theorem write_signed_eq {ins outs : Field} {a b : Record} (lists : a.schema.Lists ins outs)
    (flat : a.schema.Flat) (schema : b.schema = a.schema) (pairedA : Paired type index a.outputs)
    (pairedB : Paired type index b.outputs) (same : SameCovered a.schema type index a b) :
    (signed ins outs a index code type).write = (signed ins outs b index code type).write := by
  obtain ⟨inA, inB⟩ := same.inputs.lt
  have sameIns : signedInputs type index code a.inputs = signedInputs type index code b.inputs :=
    (signedInputs_eq_iff inA inB).mpr ⟨rfl, same.inputs⟩
  have sameOuts := (signedOutputs_eq_iff pairedA pairedB).mpr same.outputs
  have listsB : b.schema.Lists ins outs := schema ▸ lists
  apply Record.write_eq_of_agree (a := signed ins outs a index code type)
    (b := signed ins outs b index code type) schema flat
  intro field member
  by_cases isOuts : a.schema.fieldWith? .outputs = some field
  · cases lists.outputs.symm.trans isOuts
    simp only [get?_signed_outputs lists, get?_signed_outputs listsB, sameOuts, agree,
      Value.sameContent, BEq.rfl]
  by_cases isIns : a.schema.fieldWith? .inputs = some field
  · cases lists.inputs.symm.trans isIns
    simp only [get?_signed_inputs lists, get?_signed_inputs listsB, sameIns, agree,
      Value.sameContent, BEq.rfl]
  have apart : Apart a.schema field := ⟨isIns, isOuts⟩
  rw [get?_signed_apart lists member apart,
    get?_signed_apart listsB (schema ▸ member) (schema ▸ apart)]
  exact same.others field member apart

theorem preimage_eq_of_sameCovered {a b : Record} (unique : a.schema.names.Nodup)
    (flat : a.schema.Flat) (schema : b.schema = a.schema) (pairedA : Paired type index a.outputs)
    (pairedB : Paired type index b.outputs) (same : SameCovered a.schema type index a b) :
    preimage a index code type = preimage b index code type := by
  obtain ⟨ins, hasIns⟩ := fieldWith?_of_inputs same.inputs.lt.1
  cases hasOuts : a.schema.fieldWith? .outputs with
  | none =>
    rw [preimage_of_no_outputs unique hasIns hasOuts,
      preimage_of_no_outputs (schema ▸ unique) (schema ▸ hasIns) (schema ▸ hasOuts)]
  | some outs =>
    have lists : a.schema.Lists ins outs := ⟨unique, hasIns, hasOuts⟩
    rw [preimage_eq lists, preimage_eq (schema ▸ lists)]
    simp only [Record.toBytes, write_signed_eq lists flat schema pairedA pairedB same]

/-- An input that has, where it needs one, an output beside it is signed by hashing. -/
theorem digest_of_paired {tx : Record} (inRange : index < tx.inputs.length)
    (paired : Paired type index tx.outputs) :
    digest tx index code type = (preimage tx index code type).map Hash.of := by
  have beside : ¬(type.isSingle && decide (tx.outputs.length ≤ index)) = true := by
    simpa [Paired] using paired
  rw [digest, if_neg (Nat.not_le.mpr inRange), if_neg beside]

theorem digest_of_unpaired {tx : Record} (inRange : index < tx.inputs.length)
    (unpaired : ¬Paired type index tx.outputs) : digest tx index code type = .ok one := by
  have alone : (type.isSingle && decide (tx.outputs.length ≤ index)) = true := by
    simpa [Paired] using unpaired
  rw [digest, if_neg (Nat.not_le.mpr inRange), if_pos alone]

/-- **Nothing else is covered.** Transactions that agree in all that a hash type covers for an input
have the same digest for it, or fail in the same way. -/
theorem digest_eq_of_sameCovered {schema : Schema} (unique : schema.names.Nodup)
    (flat : schema.Flat) {a b : Record} (ha : a.schema = schema) (hb : b.schema = schema)
    (same : SameCovered schema type index a b) :
    digest a index code type = digest b index code type := by
  subst ha
  obtain ⟨inA, inB⟩ := same.inputs.lt
  by_cases paired : Paired type index a.outputs
  · have pairedB := same.outputs.paired_iff.mp paired
    rw [digest_of_paired inA paired, digest_of_paired inB pairedB,
      preimage_eq_of_sameCovered unique flat hb paired pairedB same]
  · rw [digest_of_unpaired inA paired,
      digest_of_unpaired inB (mt same.outputs.paired_iff.mpr paired)]

/-- A layout with a field that not every chain has. -/
def dated : Schema :=
  ⟨[⟨"nVersion", .integer ⟨.little, true, 4⟩, none, .int 1⟩,
    ⟨"nTime", .integer ⟨.little, false, 4⟩, none, .int 0⟩, ⟨"vin", .inputs, none, .inputs []⟩,
    ⟨"vout", .outputs, none, .outputs []⟩,
    ⟨"nLockTime", .integer ⟨.little, false, 4⟩, none, .int 0⟩]⟩

/-- A transaction of two inputs and two outputs, with parts that some hash types leave open. -/
def paying (script : Bytes) (sequence : UInt32) (change : Int64) : Record :=
  ⟨dated, [("nVersion", .int 2), ("nTime", .int 7),
    ("vin", .inputs [⟨.null, script, 5⟩, ⟨⟨.zero, 1⟩, script, sequence⟩]),
    ("vout", .outputs [⟨50, [0x51]⟩, ⟨change, script⟩]), ("nLockTime", .int 0)]⟩

/-- Where only the output beside the first input is covered, the scripts, the second input's
sequence number and the second output are free to differ. -/
theorem digest_eq_of_sameCovered_single :
    SameCovered dated ⟨3⟩ 0 (paying [0x51] 9 40) (paying [] 1 30) ∧
    digest (paying [0x51] 9 40) 0 [0xac] ⟨3⟩ = digest (paying [] 1 30) 0 [0xac] ⟨3⟩ := by
  have same : SameCovered dated ⟨3⟩ 0 (paying [0x51] 9 40) (paying [] 1 30) := by
    refine ⟨⟨⟨_, _, rfl, rfl, rfl, rfl⟩, fun _ => rfl, fun _ _ single => ?_⟩,
      ⟨fun _ single => ?_, fun _ => rfl⟩, ?_⟩
    · exact absurd single (by decide)
    · exact absurd single (by decide)
    · have agreed (n : Int64) : agree (some (.int n)) (some (.int n)) = true := by
        simp [agree, Value.sameContent]
      intro field member apart
      simp only [dated, List.mem_cons, List.not_mem_nil, or_false] at member
      obtain rfl | rfl | rfl | rfl | rfl := member
      · exact agreed 2
      · exact agreed 7
      · exact absurd rfl apart.1
      · exact absurd rfl apart.2
      · exact agreed 0
  have unique : dated.names.Nodup := by decide
  exact ⟨same, digest_eq_of_sameCovered unique (by decide) rfl rfl same⟩

/-- The digest for an input is that of a message. -/
structure Hashed (tx : Record) (index : Nat) (code : Script) (type : HashType) (message : Bytes) :
    Prop where
  inRange : index < tx.inputs.length
  paired : Paired type index tx.outputs
  preimage_eq_ok : preimage tx index code type = .ok message

theorem Hashed.digest_eq {tx : Record} {message : Bytes}
    (hashed : Hashed tx index code type message) :
    digest tx index code type = .ok (Hash.of message) := by
  rw [digest_of_paired hashed.inRange hashed.paired, hashed.preimage_eq_ok]
  rfl

theorem Hashed.lists {tx : Record} {message : Bytes} (unique : tx.schema.names.Nodup)
    (hashed : Hashed tx index code type message) : ∃ ins outs, tx.schema.Lists ins outs := by
  obtain ⟨ins, hasIns⟩ := fieldWith?_of_inputs hashed.inRange
  cases hasOuts : tx.schema.fieldWith? .outputs with
  | some outs => exact ⟨ins, outs, unique, hasIns, hasOuts⟩
  | none =>
    have stopped := hashed.preimage_eq_ok
    rw [preimage_of_no_outputs unique hasIns hasOuts] at stopped
    cases strip : code.withoutOpcode Opcode.codeSeparator <;>
      simp [strip, bind, Except.bind] at stopped

/-- A message is the copy that is signed, written, and then the hash type. -/
theorem Hashed.message_eq {ins outs : Field} {tx : Record} {message : Bytes}
    (lists : tx.schema.Lists ins outs) (hashed : Hashed tx index code type message) :
    ∃ stripped bytes, code.withoutOpcode Opcode.codeSeparator = .ok stripped ∧
      (signed ins outs tx index stripped type).write = .ofBytes bytes ∧
      message = bytes ++ word32 type.word := by
  have ok := hashed.preimage_eq_ok
  rw [preimage_eq lists] at ok
  cases strip : code.withoutOpcode Opcode.codeSeparator with
  | error e => simp [strip, bind, Except.bind] at ok
  | ok stripped =>
    cases write : (signed ins outs tx index stripped type).toBytes with
    | error e => simp [strip, write, bind, Except.bind] at ok
    | ok bytes =>
      simp only [strip, write, bind, Except.bind, pure, Except.pure, Except.ok.injEq] at ok
      exact ⟨stripped, bytes, rfl, Written.toExcept_eq_ok_iff.mp write, ok.symm⟩

theorem word32_inj {m n : UInt32} (h : word32 m = word32 n) : m = n := by
  have same := (readWord32_append m []).symm.trans (h ▸ readWord32_append n [])
  injection same

/-- **Everything covered is signed.** If one message is hashed for two transactions of a schema,
then for one hash type and one script code, code separators apart, and the transactions agree in
all that is covered. A byte string in memory is shorter than 2⁶⁴. -/
theorem sameCovered_of_hashed {schema : Schema} (unique : schema.names.Nodup)
    (flat : schema.Flat) {a b : Record} (ha : a.schema = schema) (hb : b.schema = schema)
    {type' : HashType} {message : Bytes} (small : message.length < UInt64.size)
    (hashedA : Hashed a index code type message) (hashedB : Hashed b index code' type' message) :
    type = type' ∧
    (∃ stripped, code.withoutOpcode Opcode.codeSeparator = .ok stripped ∧
      code'.withoutOpcode Opcode.codeSeparator = .ok stripped) ∧
    SameCovered schema type index a b := by
  subst ha
  obtain ⟨ins, outs, lists⟩ := hashedA.lists unique
  have listsB : b.schema.Lists ins outs := hb ▸ lists
  obtain ⟨stripped, bytes, strip, written, rfl⟩ := hashedA.message_eq lists
  obtain ⟨stripped', bytes', strip', written', split⟩ := hashedB.message_eq listsB
  -- the hash type is the last four bytes, so what is before it is written for both copies
  obtain ⟨rfl, sameWord⟩ := List.append_inj' split (by simp [word32])
  obtain rfl : type = type' := congrArg HashType.mk (word32_inj sameWord)
  rw [List.length_append] at small
  -- bytes determine values: the copies agree field by field, the signed lists included
  have same {field : Field} (member : field ∈ a.schema.fields) :
      (signed ins outs a index stripped type).get? field.name =
        (signed ins outs b index stripped' type).get? field.name :=
    Record.get?_eq_of_write_eq (a := signed ins outs a index stripped type)
      (b := signed ins outs b index stripped' type) hb.symm flat (by omega) written written'
      (List.mem_map_of_mem member)
  have sameIns := same (Schema.mem_of_fieldWith? lists.inputs).1
  rw [get?_signed_inputs lists, get?_signed_inputs listsB, Option.some.injEq,
    Value.inputs.injEq, signedInputs_eq_iff hashedA.inRange hashedB.inRange] at sameIns
  have sameOuts := same (Schema.mem_of_fieldWith? lists.outputs).1
  rw [get?_signed_outputs lists, get?_signed_outputs listsB, Option.some.injEq,
    Value.outputs.injEq, signedOutputs_eq_iff hashedA.paired hashedB.paired] at sameOuts
  obtain ⟨rfl, sameIns⟩ := sameIns
  refine ⟨rfl, ⟨stripped, strip, strip'⟩, sameIns, sameOuts, fun field member apart => ?_⟩
  obtain ⟨value, found, plain⟩ :=
    (signed ins outs a index stripped type).get?_of_write flat written (List.mem_map_of_mem member)
  have sameValue := same member
  rw [get?_signed_apart lists member apart,
    get?_signed_apart listsB (hb ▸ member) (hb ▸ apart)] at sameValue
  rw [get?_signed_apart lists member apart] at found
  rw [← sameValue, found, agree, Value.sameContent_iff_eq plain]

/-- What is hashed for the first input alone, no output being covered. -/
def message : Bytes :=
  [2, 0, 0, 0, 7, 0, 0, 0, 1] ++ Hash.zero.bytes ++
    [0xff, 0xff, 0xff, 0xff, 1, 0xac, 5, 0, 0, 0, 0, 0, 0, 0, 0, 0x82, 0, 0, 0]

theorem sameCovered_of_hashed_alone :
    Hashed (paying [0x51] 9 40) 0 [0xab, 0xac] ⟨0x82⟩ message ∧
    Hashed (paying [] 1 30) 0 [0xac, 0xab] ⟨0x82⟩ message ∧
    (∃ stripped, Script.withoutOpcode [0xab, 0xac] Opcode.codeSeparator = .ok stripped ∧
      Script.withoutOpcode [0xac, 0xab] Opcode.codeSeparator = .ok stripped) ∧
    SameCovered dated ⟨0x82⟩ 0 (paying [0x51] 9 40) (paying [] 1 30) := by
  have first : Hashed (paying [0x51] 9 40) 0 [0xab, 0xac] ⟨0x82⟩ message :=
    ⟨by decide, fun single => absurd single (by decide), rfl⟩
  have second : Hashed (paying [] 1 30) 0 [0xac, 0xab] ⟨0x82⟩ message :=
    ⟨by decide, fun single => absurd single (by decide), rfl⟩
  have unique : dated.names.Nodup := by decide
  exact ⟨first, second,
    (sameCovered_of_hashed unique (by decide) rfl rfl (by decide) first second).2⟩

end Sighash
end LedgerScript
