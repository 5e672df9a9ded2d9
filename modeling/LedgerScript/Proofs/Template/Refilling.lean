import LedgerScript.Proofs.Script.Meaning
import LedgerScript.Proofs.Template.Matching

namespace LedgerScript

open Script (PushesShortest operations push renewed slice tokenOf)

namespace Template

variable {template : Template} {table : Table} {ops : List Operation} {wants : List String}
  {op : Operation} {want name : String}

/-- The placeholders of one name hold the same data. -/
def Agree (ops : List Operation) (wants : List String) : Prop :=
  ∀ p ∈ held ops wants, ∀ q ∈ held ops wants, p.1 = q.1 → p.2.data = q.2.data

instance (ops : List Operation) (wants : List String) : Decidable (Agree ops wants) :=
  inferInstanceAs (Decidable (∀ _ ∈ _, ∀ _ ∈ _, _ → _))

/-- What is put for an operation: the last one at a placeholder of the same name. -/
def standIn (ops : List Operation) (wants : List String) (place : Operation × String) : Operation :=
  ((placeholder? place.2).bind fun name => (held ops wants).reverse.lookup name).getD place.1

theorem standIn_of_plain (plain : placeholder? want = none) :
    standIn ops wants (op, want) = op := by
  rw [standIn, plain, Option.bind_none, Option.getD_none]

theorem lookup_standIn (member : (op, want) ∈ ops.zip wants)
    (place : placeholder? want = some name) :
    (held ops wants).reverse.lookup name = some (standIn ops wants (op, want)) := by
  have own : ((held ops wants).reverse.lookup name).isSome = true := by
    rw [Assoc.isSome_lookup_iff]
    exact ⟨op, List.mem_reverse.mpr (mem_held.mpr ⟨want, member, place⟩)⟩
  obtain ⟨last, found⟩ := Option.isSome_iff_exists.mp own
  rw [standIn, place, Option.bind_some, found, Option.getD_some]

theorem standIn_held (member : (op, want) ∈ ops.zip wants) (place : placeholder? want = some name) :
    (name, standIn ops wants (op, want)) ∈ held ops wants :=
  List.mem_reverse.mp (Assoc.mem_of_lookup (lookup_standIn member place))

theorem lookup_gather_map (f : Operation → String) (name : String) :
    (gather (ops.map f) wants).lookup name = ((held ops wants).reverse.lookup name).map f := by
  rw [lookup_gather, held_map, ← List.map_reverse, Assoc.lookup_map]

theorem renewed_of_hash {hash : Bytes} (pushed : op.data = some hash) (whole : hash.length = 20) :
    renewed op = 20 :: hash := by
  rw [← push_of_hash whole]
  cases hash with
  | nil => cases whole
  | cons b rest => rw [renewed, pushed]

/-- What the words of a script stand for is the script, if its pushes are the shortest. -/
theorem flatten_renewed {script : Script} (split : operations script = .ok ops)
    (shortest : PushesShortest script) : (ops.map renewed).flatten = script := by
  have slices : ops.map renewed = ops.map (slice script) := by
    apply List.map_congr_left
    intro op member
    exact Script.renewed_eq (Script.spells_slice split op member) (shortest ops split op member)
  rw [slices, Script.flatten_slices split]

theorem admitted_of_extract (readable : table.Readable) {script : Script}
    (split : operations script = .ok ops) {found : TemplateMatch}
    (follows : template.extract script table = some found) :
    List.Forall₂ (fun op want => template.Admits (tokenOf table op) want) ops
      (Text.words template.text) ∧
    found.literals = gather (ops.map (tokenOf table)) (Text.words template.text) := by
  obtain ⟨ops', split', admitted, -, rfl⟩ := (extract_eq_some_iff readable).mp follows
  cases split.symm.trans split'
  rw [List.forall₂_map_left_iff] at admitted
  exact ⟨admitted, rfl⟩

section Addresses

variable (addresses : ∀ p ∈ template.slots, p.2 = .address) (readable : table.Readable)
  (admitted : List.Forall₂ (fun op want => template.Admits (tokenOf table op) want) ops wants)

include addresses readable admitted

/-- At a placeholder for an address stands a push of 20 bytes. -/
theorem exists_hash_of_held (member : (name, op) ∈ held ops wants) :
    template.slots.lookup name = some .address ∧
      ∃ hash, op.data = some hash ∧ hash.length = 20 ∧ tokenOf table op = literal hash := by
  obtain ⟨want, both, place⟩ := mem_held.mp member
  obtain ⟨kind, known, isLiteral⟩ :=
    (admits_iff_of_slot place).mp ((List.forall₂_iff_zip.mp admitted).2 both)
  obtain rfl : kind = .address := addresses _ (Assoc.mem_of_lookup known)
  obtain ⟨hash, pushed, takes⟩ := (isLiteral_tokenOf_iff readable).mp isLiteral
  exact ⟨known, hash, pushed, takes, tokenOf_of_takes pushed takes⟩

/-- A placeholder is filled with the operation that stands in for what it held. -/
theorem fillWord_gather (member : (op, want) ∈ ops.zip wants) :
    template.fillWord (gather (ops.map (tokenOf table)) wants) want =
      .ok (tokenOf table (standIn ops wants (op, want))) := by
  cases place : placeholder? want with
  | none =>
    have same := (admits_iff_of_word place).mp ((List.forall₂_iff_zip.mp admitted).2 member)
    rw [fillWord, place, standIn_of_plain place, same]
  | some name =>
    obtain ⟨known, hash, -, whole, word⟩ :=
      exists_hash_of_held addresses readable admitted (standIn_held member place)
    rw [fillWord, place]
    simp only [known, lookup_gather_map, lookup_standIn member place, Option.map_some, word,
      literalOf, decodeAddress_literal whole]

theorem fillWords_gather :
    List.Forall₂ (fun want word =>
      template.fillWord (gather (ops.map (tokenOf table)) wants) want = .ok word) wants
      ((ops.zip wants).map fun place => tokenOf table (standIn ops wants place)) := by
  have all : (ops.zip wants).map Prod.snd = wants :=
    List.map_snd_zip (Nat.le_of_eq admitted.length_eq.symm)
  conv => arg 2; rw [← all]
  rw [List.forall₂_map_left_iff, List.forall₂_map_right_iff, List.forall₂_same]
  exact fun place member => fillWord_gather addresses readable admitted member

/-- A stand-in is as long as what it stands in for, and has its bytes if it has its data. -/
theorem renewed_standIn (member : (op, want) ∈ ops.zip wants) :
    (renewed (standIn ops wants (op, want))).length = (renewed op).length ∧
    (renewed (standIn ops wants (op, want)) = renewed op ↔
      (standIn ops wants (op, want)).data = op.data) := by
  cases place : placeholder? want with
  | none => simp [standIn_of_plain place]
  | some name =>
    obtain ⟨-, last, lastPushed, lastWhole, -⟩ :=
      exists_hash_of_held addresses readable admitted (standIn_held member place)
    obtain ⟨-, own, ownPushed, ownWhole, -⟩ := exists_hash_of_held addresses readable admitted
      (mem_held.mpr ⟨want, member, place⟩)
    rw [renewed_of_hash lastPushed lastWhole, renewed_of_hash ownPushed ownWhole, lastPushed,
      ownPushed]
    simp [lastWhole, ownWhole]

end Addresses

/-- Each stands for itself exactly if the placeholders agree. -/
theorem agree_iff : Agree ops wants ↔
    ∀ place ∈ ops.zip wants, (standIn ops wants place).data = place.1.data := by
  constructor
  · rintro agree ⟨op, want⟩ member
    cases place : placeholder? want with
    | none => rw [standIn_of_plain place]
    | some name =>
      exact agree _ (standIn_held member place) _ (mem_held.mpr ⟨want, member, place⟩) rfl
  · rintro each ⟨name, op⟩ held ⟨name', op'⟩ held' (rfl : name = name')
    obtain ⟨want, member, place⟩ := mem_held.mp held
    obtain ⟨want', member', place'⟩ := mem_held.mp held'
    have same := (lookup_standIn member place).symm.trans (lookup_standIn member' place')
    exact (each _ member).symm.trans ((congrArg Operation.data (Option.some.inj same)).trans
      (each _ member'))

/-- **Filled with what has been found in a script, the template makes the stand-ins for its
operations**, one after another. -/
theorem toScript_found (addresses : ∀ p ∈ template.slots, p.2 = .address)
    (readable : table.Readable) {script : Script} (split : operations script = .ok ops)
    {found : TemplateMatch} (follows : template.extract script table = some found) :
    template.toScript found.literals table =
      .ok ((ops.zip (Text.words template.text)).map fun place =>
        renewed (standIn ops (Text.words template.text) place)).flatten := by
  obtain ⟨admitted, gathered⟩ := admitted_of_extract readable split follows
  rw [gathered]
  refine toScript_of_words (fillWords_gather addresses readable admitted) ?_
  rw [List.forall₂_map_left_iff, List.forall₂_map_right_iff, List.forall₂_same]
  exact fun place _ => ⟨Script.isWord_tokenOf readable _, Script.ofToken_tokenOf readable _⟩

/-- **Filled with what has been found in a script, a template for addresses makes a script again**,
and the same one exactly if the placeholders of each name hold the same data in it. -/
theorem toScript_of_extract (addresses : ∀ p ∈ template.slots, p.2 = .address)
    (readable : table.Readable) {script : Script} (split : operations script = .ok ops)
    (shortest : PushesShortest script) {found : TemplateMatch}
    (follows : template.extract script table = some found) :
    ∃ result, template.toScript found.literals table = .ok result ∧
      (result = script ↔ Agree ops (Text.words template.text)) := by
  obtain ⟨admitted, -⟩ := admitted_of_extract readable split follows
  refine ⟨_, toScript_found addresses readable split follows, ?_⟩
  generalize Text.words template.text = wants at admitted
  have all : (ops.zip wants).map Prod.fst = ops :=
    List.map_fst_zip (Nat.le_of_eq admitted.length_eq)
  have whole : ((ops.zip wants).map fun place => renewed place.1).flatten = script := by
    conv => rhs; rw [← flatten_renewed split shortest, ← all, List.map_map]
    rfl
  have sizes : List.Forall₂ (fun a b : Bytes => a.length ≤ b.length)
      ((ops.zip wants).map fun place => renewed (standIn ops wants place))
      ((ops.zip wants).map fun place => renewed place.1) := by
    rw [List.forall₂_map_left_iff, List.forall₂_map_right_iff, List.forall₂_same]
    exact fun place member =>
      Nat.le_of_eq (renewed_standIn addresses readable admitted member).1
  rw [agree_iff]
  conv => lhs; rhs; rw [← whole]
  constructor
  · intro same place member
    have each := List.map_inj_left.mp (Fallible.eq_of_flatten_eq sizes same) place member
    exact (renewed_standIn addresses readable admitted member).2.mp each
  · intro each
    refine congrArg List.flatten (List.map_congr_left fun place member => ?_)
    exact (renewed_standIn addresses readable admitted member).2.mpr (each place member)

/-- A template with one name at two places. -/
def twice : Template := ⟨"Twice", "OP_DUP <a> <b> <a>", [("a", .address), ("b", .address)]⟩

/-- A code and three pushes of one byte twenty times over. -/
def threePushes (code a b c : UInt8) : Script :=
  code :: ([a, b, c].map fun byte => push (List.replicate 20 byte)).flatten

def threePushesOps (code a b c : UInt8) : List Operation :=
  [⟨0, 1, code, none⟩, ⟨1, 22, 20, some (List.replicate 20 a)⟩,
    ⟨22, 43, 20, some (List.replicate 20 b)⟩, ⟨43, 64, 20, some (List.replicate 20 c)⟩]

/-- The same hash at both places, in a table where another code has the name of the template's. -/
theorem toScript_of_extract_same :
    let script := threePushes 0xc0 1 2 1
    let found : TemplateMatch :=
      ⟨twice, [("a", literal (List.replicate 20 1)), ("b", literal (List.replicate 20 2))]⟩
    (∀ p ∈ twice.slots, p.2 = .address) ∧ Script.clashing.Readable ∧
    operations script = .ok (threePushesOps 0xc0 1 2 1) ∧ PushesShortest script ∧
    twice.extract script Script.clashing = some found ∧
    twice.toScript found.literals Script.clashing = .ok script := by
  intro script found
  have addresses : ∀ p ∈ twice.slots, p.2 = .address := by decide
  have readable : Script.clashing.Readable := by decide
  have split : operations script = .ok (threePushesOps 0xc0 1 2 1) := rfl
  have each : ∀ op ∈ threePushesOps 0xc0 1 2 1, ∀ data ∈ op.data, slice script op = push data := by
    decide
  have shortest : PushesShortest script := (Script.pushesShortest_iff_of_split split).mpr each
  have follows : twice.extract script Script.clashing = some found := by
    rw [extract_eq_of_split readable split]
    decide +kernel
  have agree : Agree (threePushesOps 0xc0 1 2 1) (Text.words twice.text) := by decide +kernel
  obtain ⟨result, filled, same⟩ := toScript_of_extract addresses readable split shortest follows
  rw [same.mpr agree] at filled
  exact ⟨addresses, readable, split, shortest, follows, filled⟩

/-- Of two hashes at the places of one name only the last is found, and it is put at both. -/
theorem toScript_of_extract_differing :
    let script := threePushes 0x76 1 2 3
    let found : TemplateMatch :=
      ⟨twice, [("a", literal (List.replicate 20 3)), ("b", literal (List.replicate 20 2))]⟩
    (∀ p ∈ twice.slots, p.2 = .address) ∧ Table.standard.Readable ∧ PushesShortest script ∧
    twice.extract script .standard = some found ∧
    twice.toScript found.literals .standard = .ok (threePushes 0x76 3 2 3) ∧
    threePushes 0x76 3 2 3 ≠ script := by
  intro script found
  have split : operations script = .ok (threePushesOps 0x76 1 2 3) := rfl
  have each : ∀ op ∈ threePushesOps 0x76 1 2 3, ∀ data ∈ op.data, slice script op = push data := by
    decide
  have shortest : PushesShortest script := (Script.pushesShortest_iff_of_split split).mpr each
  have follows : twice.extract script .standard = some found := by
    rw [extract_eq_of_split Table.standard_readable split]
    decide +kernel
  have words : Text.words twice.text = ["OP_DUP", "<a>", "<b>", "<a>"] := by decide +kernel
  have filled := toScript_found (by decide) Table.standard_readable split follows
  rw [words] at filled
  exact ⟨by decide, Table.standard_readable, shortest, follows, filled, by decide⟩

end Template
end LedgerScript
