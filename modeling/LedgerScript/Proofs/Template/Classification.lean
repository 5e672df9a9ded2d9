import LedgerScript.Proofs.Script.Covered
import LedgerScript.Proofs.Template.Known

namespace LedgerScript.Template

open Script (Parts PushesShortest Spelled Spells lengthWidth? push)

variable {frame : Frame} {script : Script}

/-- Codes by themselves push nothing, so that the pushes are the shortest if the one between is. -/
theorem pushesShortest_around_iff {before after part data : Bytes} {opcode : UInt8}
    (alone : ∀ value ∈ before ++ after, lengthWidth? value = none)
    (spelt : Spells part opcode (some data)) :
    PushesShortest (before ++ part ++ after) ↔ part = push data := by
  have none_of_alone : ∀ value ∈ before ++ after, ∀ opcode data,
      ¬ Spells [value] opcode (some data) := by
    intro value member opcode data pushes
    obtain ⟨-, ⟨plain, -⟩ | ⟨-, zero⟩⟩ := Script.spells_alone_iff.mp pushes
    · cases plain
    · have width := alone value member
      rw [zero] at width
      cases width
  have spelled : Spelled (before.map ([·]) ++ part :: after.map ([·])) := by
    simp only [Spelled, List.forall_mem_append, List.forall_mem_cons, List.forall_mem_map]
      at alone ⊢
    exact ⟨fun value member => ⟨value, none, .plain (alone.1 value member)⟩, ⟨opcode, _, spelt⟩,
      fun value member => ⟨value, none, .plain (alone.2 value member)⟩⟩
  obtain ⟨ops, placed⟩ := spelled.parts 0
  rw [← flatten_around, placed.pushesShortest_iff]
  simp only [List.forall_mem_append, List.forall_mem_cons, List.forall_mem_map] at none_of_alone ⊢
  constructor
  · exact fun shortest => shortest.2.1 opcode data spelt
  · rintro shortest
    refine ⟨fun value member opcode data pushes => ?_, fun opcode' data' pushes => ?_,
      fun value member opcode data pushes => ?_⟩
    · exact absurd pushes (none_of_alone.1 value member opcode data)
    · rw [← Option.some.inj (spelt.unique pushes).2, shortest]
    · exact absurd pushes (none_of_alone.2 value member opcode data)

theorem direct_iff_pushesShortest (known : frame ∈ Frame.known) :
    frame.Direct script ↔ PushesShortest script ∧
      ∃ hash : Bytes, hash.length = 20 ∧ Encloses frame.before frame.after hash script := by
  have one := oneSlot_of_known known Table.standard_mem_builtin
  have alone : ∀ value ∈ frame.before ++ frame.after, lengthWidth? value = none := by
    rw [List.forall_mem_append]
    exact ⟨fun value member => (one.before_bare value member).alone,
      fun value member => (one.after_bare value member).alone⟩
  constructor
  · rintro ⟨hash, whole, rfl⟩
    have small : hash.length < 0x100000000 := by omega
    obtain ⟨opcode, spelt⟩ := Script.spells_push small
    exact ⟨(pushesShortest_around_iff alone spelt).mpr rfl, hash, whole,
      encloses_push small _ _⟩
  · rintro ⟨shortest, hash, whole, part, opcode, spelt, rfl⟩
    obtain rfl := (pushesShortest_around_iff alone spelt).mp shortest
    exact ⟨hash, whole, rfl⟩

/-- A hash stands after the code that pushes it. -/
theorem take_after_push {before after hash : Bytes} (whole : hash.length = 20) :
    ((before ++ push hash ++ after).drop (before.length + 1)).take 20 = hash := by
  have place : (before ++ [20]).length = before.length + 1 := List.length_append
  rw [push_of_hash whole, List.append_cons, List.append_assoc, ← place, List.drop_left, ← whole,
    List.take_left]

/-- How a template and a test of bytes at fixed places classify a script, under the standard
table. -/
structure Classified (template : Template) (test : Script → Bool) (before after : Bytes)
    (script : Script) : Prop where
  /-- The template is recognized by a push of 20 bytes in any form, and these are the recipient. -/
  recognized_iff : ∀ found,
    recognize script known .standard = some found ∧ found.template = template ↔
      ∃ hash : Bytes, hash.length = 20 ∧ Encloses before after hash script ∧
        found = ⟨template, [("recipient", "0x" ++ Hex.encode hash)]⟩
  /-- The test is passed by those of them that push in the shortest form. -/
  tested_iff : test script = true ↔ PushesShortest script ∧
    ∃ found, recognize script known .standard = some found ∧ found.template = template
  /-- The recipient is then what follows the code of the push. -/
  recipient : test script = true → ∀ found, recognize script known .standard = some found →
    found.recipient? = some ("0x" ++ Hex.encode ((script.drop (before.length + 1)).take 20))

/-- A known template is recognized by a push between its codes. -/
theorem recognize_of_known_iff (known : frame ∈ Frame.known) {found : TemplateMatch} :
    recognize script Template.known .standard = some found ∧ found.template = frame.template ↔
      ∃ data, frame.Around data script ∧ found = frame.found data := by
  have distinct : ∀ frame ∈ Frame.known, ∀ other ∈ Frame.known,
      other.template = frame.template → other = frame := by decide
  rw [recognize_eq_some_iff Table.standard_mem_builtin]
  constructor
  · rintro ⟨⟨other, known', data, around, rfl⟩, same⟩
    obtain rfl := distinct frame known other known' same
    exact ⟨data, around, rfl⟩
  · rintro ⟨data, around, rfl⟩
    exact ⟨⟨frame, known, data, around, rfl⟩, rfl⟩

theorem classified_of_known (known : frame ∈ Frame.known)
    (own : frame.name = "recipient" ∧ frame.kind = .address) {test : Script → Bool}
    (direct : ∀ script, test script = true ↔ frame.Direct script) :
    Classified frame.template test frame.before frame.after script := by
  have recognized_iff : ∀ found,
      recognize script Template.known .standard = some found ∧ found.template = frame.template ↔
        ∃ hash : Bytes, hash.length = 20 ∧ Encloses frame.before frame.after hash script ∧
          found = ⟨frame.template, [("recipient", "0x" ++ Hex.encode hash)]⟩ := by
    intro found
    rw [recognize_of_known_iff known]
    simp only [frame.around_iff_of_address own.2, and_assoc, Frame.found, own.1, literal]
  refine ⟨recognized_iff, ?_, ?_⟩
  · simp only [direct, direct_iff_pushesShortest known, recognized_iff]
    refine and_congr_right fun _ => ?_
    constructor
    · rintro ⟨hash, whole, encloses⟩
      exact ⟨_, hash, whole, encloses, rfl⟩
    · rintro ⟨-, hash, whole, encloses, -⟩
      exact ⟨hash, whole, encloses⟩
  · intro tested found recognized
    obtain ⟨hash, whole, rfl⟩ := (direct script).mp tested
    have small : hash.length < 0x100000000 := by omega
    have follows := (recognized_iff _).mpr ⟨hash, whole, encloses_push small _ _, rfl⟩
    cases follows.1.symm.trans recognized
    rw [take_after_push whole]
    rfl

/-- **The two ways to classify a script**, under the standard table: the bytes at fixed places are
those of the recognized scripts with shortest pushes. -/
theorem classified (script : Script) :
    Classified payToKeyHash Script.isPayToKeyHash [0x76, 0xa9] [0x88, 0xac] script ∧
    Classified payToScriptHash Script.isPayToScriptHash [0xa9] [0x87] script :=
  ⟨classified_of_known (show Frame.payToKeyHash ∈ Frame.known by decide) ⟨rfl, rfl⟩
      fun _ => isPayToKeyHash_iff,
    classified_of_known (show Frame.payToScriptHash ∈ Frame.known by decide) ⟨rfl, rfl⟩
      fun _ => isPayToScriptHash_iff⟩

/-- A hash pushed with a length before it is recognized, but is not at the place that is tested. -/
theorem classified_apart :
    let hash : Bytes := [0, 1, 2, 3, 4, 5, 6, 7, 8, 9, 10, 11, 12, 13, 14, 15, 16, 17, 18, 19]
    let toKey : Script := [0x76, 0xa9, 0x4c, 0x14] ++ hash ++ [0x88, 0xac]
    let toScript : Script := [0xa9, 0x4d, 0x14, 0] ++ hash ++ [0x87]
    toKey.isPayToKeyHash = false ∧ toScript.isPayToScriptHash = false ∧
    (∃ found, recognize toKey known .standard = some found ∧ found.template = payToKeyHash) ∧
    ∃ found,
      recognize toScript known .standard = some found ∧ found.template = payToScriptHash := by
  intro hash toKey toScript
  have keyed : Encloses [0x76, 0xa9] [0x88, 0xac] hash toKey :=
    ⟨_, Opcode.pushData1, @Spells.push Opcode.pushData1 [20] hash rfl rfl, rfl⟩
  have scripted : Encloses [0xa9] [0x87] hash toScript :=
    ⟨_, Opcode.pushData2, @Spells.push Opcode.pushData2 [20, 0] hash rfl rfl, rfl⟩
  have key := (recognize_of_known_iff (show Frame.payToKeyHash ∈ Frame.known by decide)).mpr
    ⟨hash, ⟨rfl, keyed⟩, rfl⟩
  have script := (recognize_of_known_iff (show Frame.payToScriptHash ∈ Frame.known by decide)).mpr
    ⟨hash, ⟨rfl, scripted⟩, rfl⟩
  exact ⟨by decide, by decide, ⟨_, key⟩, _, script⟩

end LedgerScript.Template
