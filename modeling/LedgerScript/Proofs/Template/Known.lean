import LedgerScript.Chain.Preset
import LedgerScript.Proofs.Template.OneSlot

namespace LedgerScript

/-- The table without overrides and those of the presets that are built in. -/
def Table.builtin : List Table :=
  .standard :: Preset.builtin.map fun preset => Table.standard.overlay preset.overrides

theorem Table.builtin_readable : ∀ table ∈ builtin, table.Readable := by decide +kernel

theorem Table.standard_mem_builtin : standard ∈ builtin := List.mem_cons_self

theorem Text.utf8_eq_nil_iff {text : String} : utf8 text = [] ↔ text = "" := by
  rw [utf8, utf8OfChars, List.flatMap_eq_nil_iff, ← String.toList_eq_nil_iff,
    List.eq_nil_iff_forall_not_mem]
  exact forall₂_congr fun c _ => iff_false_intro String.utf8EncodeChar_ne_nil

namespace Template

open Script (push)

instance (table : Table) (value : UInt8) : Decidable (Bare table value) :=
  decidable_of_iff (Script.lengthWidth? value = none ∧ placeholder? (table.token value) = none)
    ⟨fun h => ⟨h.1, h.2⟩, fun h => ⟨h.alone, h.plain⟩⟩

/-- A template, its slot, and the codes around the slot. -/
structure Frame where
  template : Template
  name : String
  kind : SlotKind
  before : Bytes
  after : Bytes
deriving DecidableEq

namespace Frame

def payToKeyHash : Frame :=
  ⟨.payToKeyHash, "recipient", .address, [Opcode.dup, Opcode.hash160],
    [Opcode.equalVerify, Opcode.checkSig]⟩

def payToScriptHash : Frame :=
  ⟨.payToScriptHash, "recipient", .address, [Opcode.hash160], [Opcode.equal]⟩

def nullData : Frame := ⟨.nullData, "text", .text, [0x6a], []⟩

def known : List Frame := [payToKeyHash, payToScriptHash, nullData]

/-- The script is one of the frame's: a push between its codes of something for its slot. -/
def Around (frame : Frame) (data : Bytes) (script : Script) : Prop :=
  frame.kind.Takes data ∧ Encloses frame.before frame.after data script

/-- What is found in a script with that data. -/
def found (frame : Frame) (data : Bytes) : TemplateMatch :=
  ⟨frame.template, [(frame.name, literal data)]⟩

end Frame

variable {frame : Frame} {table : Table} {script : Script}

/-- The words of a known template are those of its codes, in each table that is built in. -/
theorem oneSlot_of_known (known : frame ∈ Frame.known) (builtin : table ∈ Table.builtin) :
    OneSlot frame.template table frame.name frame.kind frame.before frame.after := by
  have slots : ∀ frame ∈ Frame.known, frame.template.slots = [(frame.name, frame.kind)] := by decide
  have words : ∀ frame ∈ Frame.known, ∀ table ∈ Table.builtin,
      placeholder? ("<" ++ frame.name ++ ">") = some frame.name ∧
      Text.words frame.template.text = frame.before.map table.token ++
        ("<" ++ frame.name ++ ">") :: frame.after.map table.token := by decide +kernel
  have bare : ∀ frame ∈ Frame.known, ∀ table ∈ Table.builtin,
      (∀ value ∈ frame.before, Bare table value) ∧ ∀ value ∈ frame.after, Bare table value := by
    decide +kernel
  obtain ⟨before_bare, after_bare⟩ := bare frame known table builtin
  exact ⟨slots frame known, ⟨_, words frame known table builtin⟩, before_bare, after_bare⟩

/-- The codes in front of the slot tell the known templates apart. -/
theorem Frame.eq_of_front {other : Frame} (mine : frame ∈ known) (known' : other ∈ known)
    (front : frame.before <+: other.before) : frame = other := by
  have apart : ∀ frame ∈ known, ∀ other ∈ known,
      frame.before <+: other.before → frame = other := by decide
  exact apart frame mine other known' front

theorem extract_eq_some_iff_around (known : frame ∈ Frame.known) (builtin : table ∈ Table.builtin)
    {found : TemplateMatch} : frame.template.extract script table = some found ↔
      ∃ data, frame.Around data script ∧ found = frame.found data := by
  rw [(oneSlot_of_known known builtin).follows_iff (Table.builtin_readable table builtin)]
  simp only [Frame.Around, Frame.found, and_assoc]

/-- A script is a push between the codes of one known template at most. -/
theorem Frame.eq_of_encloses {other : Frame} (mine : frame ∈ known) (known' : other ∈ known)
    {data data' : Bytes} (encloses : Encloses frame.before frame.after data script)
    (encloses' : Encloses other.before other.after data' script) :
    frame = other ∧ data = data' := by
  have same : frame = other := by
    rcases List.prefix_or_prefix_of_prefix encloses.front encloses'.front with front | front
    · exact eq_of_front mine known' front
    · exact (eq_of_front known' mine front).symm
  subst same
  exact ⟨rfl, encloses.unique encloses'⟩

/-- **A script is recognized exactly if it is a push between the codes of a known template**, of
something for the slot. -/
theorem recognize_eq_some_iff (builtin : table ∈ Table.builtin) {found : TemplateMatch} :
    recognize script known table = some found ↔
      ∃ frame ∈ Frame.known, ∃ data, frame.Around data script ∧ found = frame.found data := by
  have list : recognize script known table =
      Frame.known.findSome? fun frame => frame.template.extract script table := rfl
  have sound : ∀ found, recognize script known table = some found →
      ∃ frame ∈ Frame.known, ∃ data, frame.Around data script ∧ found = frame.found data := by
    intro found recognized
    obtain ⟨frame, member, follows⟩ := List.exists_of_findSome?_eq_some (list ▸ recognized)
    exact ⟨frame, member, (extract_eq_some_iff_around member builtin).mp follows⟩
  refine ⟨sound found, ?_⟩
  rintro ⟨frame, member, data, around, rfl⟩
  have follows := (extract_eq_some_iff_around member builtin).mpr ⟨data, around, rfl⟩
  have some : (recognize script known table).isSome = true := by
    rw [list, List.findSome?_isSome_iff]
    exact ⟨frame, member, by rw [follows, Option.isSome_some]⟩
  obtain ⟨other, recognized⟩ := Option.isSome_iff_exists.mp some
  obtain ⟨frame', member', data', around', rfl⟩ := sound other recognized
  obtain ⟨rfl, rfl⟩ := Frame.eq_of_encloses member member' around.2 around'.2
  exact recognized

/-- Bytes between others are cut out by their places. -/
theorem exists_between_iff {before after : Bytes} {size : Nat} :
    (script.length = before.length + size + after.length ∧ script.take before.length = before ∧
      script.drop (before.length + size) = after) ↔
      ∃ middle : Bytes, middle.length = size ∧ script = before ++ middle ++ after := by
  constructor
  · rintro ⟨length, front, back⟩
    refine ⟨(script.drop before.length).take size, ?_, ?_⟩
    · rw [List.length_take_of_le]
      rw [List.length_drop]
      omega
    · conv => lhs; rw [← List.take_append_drop before.length script, front,
        ← List.take_append_drop size (script.drop before.length), List.drop_drop, back,
        ← List.append_assoc]
  · rintro ⟨middle, rfl, rfl⟩
    refine ⟨by simp only [List.length_append], ?_, ?_⟩
    · rw [List.append_assoc, List.take_left]
    · rw [← List.length_append, List.drop_left]

/-- The script is the shortest push of 20 bytes between the codes. -/
def Frame.Direct (frame : Frame) (script : Script) : Prop :=
  ∃ hash : Bytes, hash.length = 20 ∧ script = frame.before ++ push hash ++ frame.after

theorem direct_iff : frame.Direct script ↔ ∃ hash : Bytes, hash.length = 20 ∧
    script = (frame.before ++ [20]) ++ hash ++ frame.after := by
  refine exists_congr fun hash => and_congr_right fun whole => ?_
  rw [push_of_hash whole, List.append_assoc frame.before [20], List.singleton_append]

theorem isPayToKeyHash_iff : script.isPayToKeyHash = true ↔ Frame.payToKeyHash.Direct script := by
  rw [direct_iff, ← exists_between_iff]
  simp only [Script.isPayToKeyHash, Bool.and_eq_true, beq_iff_eq, and_assoc]
  rfl

theorem isPayToScriptHash_iff :
    script.isPayToScriptHash = true ↔ Frame.payToScriptHash.Direct script := by
  rw [direct_iff, ← exists_between_iff]
  simp only [Script.isPayToScriptHash, Bool.and_eq_true, beq_iff_eq, and_assoc]
  rfl

theorem Frame.around_iff_of_address (address : frame.kind = .address) {hash : Bytes} :
    frame.Around hash script ↔
      hash.length = 20 ∧ Encloses frame.before frame.after hash script := by
  rw [Frame.Around, address]
  rfl

/-- A template, filled with an address, makes the script, which passes the test, and the template
and the hash are recognized in it. -/
structure Pays (template : Template) (table : Table) (test : Script → Bool) (value : String)
    (hash : Bytes) (script : Script) : Prop where
  filled : template.toScript [("recipient", value)] table = .ok script
  tested : test script = true
  recognized : ∃ found, recognize script known table = some found ∧ found.template = template ∧
    found.recipient? = some ("0x" ++ Hex.encode hash)

theorem pays_of_known (known : frame ∈ Frame.known) (builtin : table ∈ Table.builtin)
    (own : frame.name = "recipient" ∧ frame.kind = .address) {test : Script → Bool}
    (direct : ∀ script, test script = true ↔ frame.Direct script) {value : String} {hash : Bytes}
    (decoded : decodeAddress value = some hash) :
    Pays frame.template table test value hash (frame.before ++ push hash ++ frame.after) := by
  have whole : hash.length = 20 := length_of_decodeAddress decoded
  have small : hash.length < 0x100000000 := by omega
  have given : literalOf frame.name value frame.kind = .ok (literal hash) := by
    rw [own.2, literalOf, decoded]
  have around := (frame.around_iff_of_address own.2).mpr
    ⟨whole, encloses_push small frame.before frame.after⟩
  have readable := Table.builtin_readable table builtin
  have filled := (oneSlot_of_known known builtin).toScript readable given
  rw [own.1] at filled
  refine ⟨filled, (direct _).mpr ⟨hash, whole, rfl⟩, frame.found hash, ?_, rfl, ?_⟩
  · exact (recognize_eq_some_iff builtin).mpr ⟨frame, known, hash, around, rfl⟩
  · rw [TemplateMatch.recipient?, Frame.found, own.1, List.lookup_cons_self, literal]

/-- **An output to an address is recognized**, with its recipient, under each table that is built
in. -/
theorem recognize_of_decodeAddress {value : String} {hash : Bytes}
    (decoded : decodeAddress value = some hash) (builtin : table ∈ Table.builtin) :
    hash.length = 20 ∧
    Pays payToKeyHash table Script.isPayToKeyHash value hash
      ([0x76, 0xa9, 0x14] ++ hash ++ [0x88, 0xac]) ∧
    Pays payToScriptHash table Script.isPayToScriptHash value hash
      ([0xa9, 0x14] ++ hash ++ [0x87]) := by
  have whole : hash.length = 20 := length_of_decodeAddress decoded
  have keyHash := pays_of_known (show Frame.payToKeyHash ∈ Frame.known by decide) builtin
    ⟨rfl, rfl⟩ (fun _ => isPayToKeyHash_iff) decoded
  have scriptHash := pays_of_known (show Frame.payToScriptHash ∈ Frame.known by decide) builtin
    ⟨rfl, rfl⟩ (fun _ => isPayToScriptHash_iff) decoded
  rw [push_of_hash whole] at keyHash scriptHash
  exact ⟨whole, keyHash, scriptHash⟩

/-- An address with a checksum, and the table of a preset with an override. -/
theorem recognize_of_decodeAddress_genesis :
    let hash : Bytes :=
      [0x62, 0xe9, 0x07, 0xb1, 0x5c, 0xbf, 0x27, 0xd5, 0x42, 0x53, 0x99, 0xeb, 0xf6, 0xf0, 0xfb,
        0x50, 0xeb, 0xb8, 0x8f, 0x18]
    let table := Table.standard.overlay Preset.clams.overrides
    decodeAddress "1A1zP1eP5QGefi2DMPTfTL5SLmv7DivfNa" = some hash ∧ table ∈ Table.builtin ∧
    hash.length = 20 ∧
    Pays payToKeyHash table Script.isPayToKeyHash "1A1zP1eP5QGefi2DMPTfTL5SLmv7DivfNa" hash
      ([0x76, 0xa9, 0x14] ++ hash ++ [0x88, 0xac]) ∧
    Pays payToScriptHash table Script.isPayToScriptHash "1A1zP1eP5QGefi2DMPTfTL5SLmv7DivfNa" hash
      ([0xa9, 0x14] ++ hash ++ [0x87]) := by
  intro hash table
  have decoded : decodeAddress "1A1zP1eP5QGefi2DMPTfTL5SLmv7DivfNa" = some hash := by decide +kernel
  have builtin : table ∈ Table.builtin := by decide +kernel
  exact ⟨decoded, builtin, recognize_of_decodeAddress decoded builtin⟩

/-- **An output with a text is recognized unless the text is empty.** The push of an empty text is
`OP_0`, which is written by its name and not as a literal. -/
theorem recognize_nullData {text : String} (small : (Text.utf8 text).length < 0x100000000) :
    nullData.toScript [("text", text)] .standard = .ok (0x6a :: push (Text.utf8 text)) ∧
    recognize (0x6a :: push (Text.utf8 text)) known .standard =
      if text = "" then none
      else some ⟨nullData, [("text", "0x" ++ Hex.encode (Text.utf8 text))]⟩ := by
  have member : Frame.nullData ∈ Frame.known := by decide
  have form : 0x6a :: push (Text.utf8 text) =
      Frame.nullData.before ++ push (Text.utf8 text) ++ Frame.nullData.after :=
    (List.append_nil _).symm
  have around := encloses_push small Frame.nullData.before Frame.nullData.after
  rw [form]
  refine ⟨?_, ?_⟩
  · exact (oneSlot_of_known member Table.standard_mem_builtin).toScript Table.standard_readable rfl
  · split
    · next empty =>
      rw [Option.eq_none_iff_forall_ne_some]
      intro found recognized
      obtain ⟨frame, known, data, ⟨takes, encloses⟩, -⟩ :=
        (recognize_eq_some_iff Table.standard_mem_builtin).mp recognized
      obtain ⟨rfl, rfl⟩ := Frame.eq_of_encloses known member encloses around
      exact takes (Text.utf8_eq_nil_iff.mpr empty)
    · next some =>
      refine (recognize_eq_some_iff Table.standard_mem_builtin).mpr
        ⟨_, member, Text.utf8 text, ⟨?_, around⟩, rfl⟩
      exact fun nothing => some (Text.utf8_eq_nil_iff.mp nothing)

theorem recognize_nullData_hi :
    (Text.utf8 "hi").length < 0x100000000 ∧
    nullData.toScript [("text", "hi")] .standard = .ok [0x6a, 2, 0x68, 0x69] ∧
    recognize [0x6a, 2, 0x68, 0x69] known .standard =
      some ⟨nullData, [("text", "0x" ++ Hex.encode [0x68, 0x69])]⟩ := by
  have small : (Text.utf8 "hi").length < 0x100000000 := by decide
  have bytes : Text.utf8 "hi" = [0x68, 0x69] := by decide
  have both := recognize_nullData small
  rw [if_neg (by decide), bytes] at both
  exact ⟨small, both⟩

/-- An empty text makes an output that is not recognized. -/
theorem recognize_nullData_empty :
    (Text.utf8 "").length < 0x100000000 ∧
    nullData.toScript [("text", "")] .standard = .ok [0x6a, 0] ∧
    recognize [0x6a, 0] known .standard = none :=
  ⟨by decide, rfl, by decide +kernel⟩

end Template
end LedgerScript
