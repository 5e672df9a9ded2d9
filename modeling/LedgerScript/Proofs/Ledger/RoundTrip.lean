import LedgerScript.Ledger.Layout
import LedgerScript.Ledger.Transaction
import LedgerScript.Proofs.Ledger.Written

namespace LedgerScript

open Decoder (Reads)

/-- Transactions that were written one after another read back in order. -/
theorem times_reads_of_writeRecords {transaction : Decoder Record} {list : List Record} {b : Bytes}
    (written : writeRecords list = .ofBytes b)
    (each : ∀ tx ∈ list, ∀ c, tx.write = .ofBytes c → c.length ≤ b.length →
      ∃ tx', transaction.Reads c tx' ∧ tx'.sameContent tx = true) :
    ∃ list', (Decoder.times list.length transaction).Reads b list' ∧
      sameContents list' list = true := by
  induction list generalizing b with
  | nil =>
    cases Written.ofBytes_inj (by simpa only [writeRecords] using written)
    exact ⟨[], Reads.pure [], by simp [sameContents]⟩
  | cons tx list ih =>
    rw [writeRecords] at written
    obtain ⟨x, y, first, others, rfl⟩ := Written.append_eq_ofBytes_iff.mp written
    rw [List.length_append] at each
    obtain ⟨tx', readFirst, sameFirst⟩ := each tx List.mem_cons_self x first (by omega)
    obtain ⟨list', readOthers, sameOthers⟩ := ih others fun t member c hc bound =>
      each t (List.mem_cons_of_mem tx member) c hc (by omega)
    exact ⟨tx' :: list', readFirst.bind readOthers.map,
      by simp [sameContents, sameFirst, sameOthers]⟩

theorem length_le_of_writeRecords {list : List Record} {b : Bytes}
    (written : writeRecords list = .ofBytes b)
    (some : ∀ tx ∈ list, ∀ c, tx.write = .ofBytes c → 0 < c.length) : list.length ≤ b.length := by
  induction list generalizing b with
  | nil => exact Nat.zero_le _
  | cons tx list ih =>
    rw [writeRecords] at written
    obtain ⟨x, y, first, others, rfl⟩ := Written.append_eq_ofBytes_iff.mp written
    have front := some tx List.mem_cons_self x first
    have back := ih others fun t member => some t (List.mem_cons_of_mem tx member)
    rw [List.length_append, List.length_cons]
    omega

/-- A field reads back to a value of the same content if shorter transactions do. -/
theorem Field.Writes.reads {field : Field} {value : Value} {b : Bytes} (h : field.Writes value b)
    (small : b.length < UInt64.size) (transaction : Decoder Record)
    (nested : ∀ list, field.encoding = .transactions → value = .transactions list →
      ∀ tx ∈ list, ∀ c, tx.write = .ofBytes c → c.length < b.length →
        0 < c.length ∧ ∃ tx', transaction.Reads c tx' ∧ tx'.sameContent tx = true) :
    ∃ value', (field.readWith transaction).Reads b value' ∧ value'.sameContent value = true := by
  unfold Field.readWith
  cases h with
  | @integer format n b encoding fits =>
    rw [encoding]
    exact ⟨.int n, (IntegerFormat.reads_of_write fits).map, by simp [Value.sameContent]⟩
  | fixed encoding length =>
    simp only [encoding, length]
    exact ⟨.bytes b, (Reads.take b).map, by simp [Value.sameContent]⟩
  | @counted x encoding length =>
    simp only [encoding, length]
    rw [CompactSize.encodeBytes, List.length_append] at small
    exact ⟨.bytes x, (CompactSize.readBytes_reads (by omega)).map, by simp [Value.sameContent]⟩
  | @inputs list encoding =>
    rw [encoding]
    exact ⟨.inputs list, Reads.ofList Input.encode_ne_nil small (fun _ => Input.reads)
      Value.inputs, by simp [Value.sameContent]⟩
  | @outputs list encoding =>
    rw [encoding]
    exact ⟨.outputs list, Reads.ofList Output.encode_ne_nil small (fun _ => Output.reads)
      Value.outputs, by simp [Value.sameContent]⟩
  | @transactions list c encoding records =>
    rw [encoding]
    have count := CompactSize.length_encode_pos list.length
    rw [List.length_append] at small nested
    have each (tx : Record) (member : tx ∈ list) (d : Bytes) (hd : tx.write = .ofBytes d) :=
      nested list encoding rfl tx member d hd
    have bound {tx : Record} (member : tx ∈ list) {d : Bytes} (hd : tx.write = .ofBytes d) :
        d.length ≤ c.length := by
      obtain ⟨e, he, le⟩ := Written.length_le_of_mem (List.mem_map_of_mem member)
        ((writeRecords_eq list).symm.trans records)
      cases Written.ofBytes_inj (hd.symm.trans he)
      exact le
    have enough : list.length ≤ c.length := length_le_of_writeRecords records
      fun tx member d hd => (each tx member d hd (by have := bound member hd; omega)).1
    obtain ⟨list', reads, same⟩ := times_reads_of_writeRecords records
      fun tx member d hd le => (each tx member d hd (by omega)).2
    exact ⟨.transactions list', Reads.counted (by omega) enough reads.map,
      by simp [Value.sameContent, same]⟩

/-- Fields that are written one after another read back, each under its name. -/
theorem sequence_reads {record : Record} (transaction : Decoder Record) {fields : List Field}
    {b : Bytes} (written : .concat (fields.map record.writeField) = Written.ofBytes b)
    (each : ∀ field ∈ fields, ∀ c value, record.values.lookup field.name = some value →
      field.Writes value c → c.length ≤ b.length →
      ∃ value', (field.readWith transaction).Reads c value' ∧ value'.sameContent value = true) :
    ∃ values, (Decoder.sequence (fields.map fun field => do
        let value ← field.readWith transaction
        pure (field.name, value))).Reads b values ∧
      ∀ name ∈ fields.map Field.name, ∃ v w, values.lookup name = some v ∧
        record.values.lookup name = some w ∧ v.sameContent w = true := by
  induction fields generalizing b with
  | nil =>
    cases Written.ofBytes_inj written
    exact ⟨[], Reads.pure [], by simp⟩
  | cons field fields ih =>
    obtain ⟨x, y, first, others, rfl⟩ := Written.concat_cons_eq_ofBytes written
    rw [List.length_append] at each
    obtain ⟨value, found, writes⟩ := record.writes_of_writeField first
    obtain ⟨value', reads, same⟩ := each field List.mem_cons_self x value found writes (by omega)
    obtain ⟨values, readsOthers, agree⟩ := ih others fun f member c v hv hc bound =>
      each f (List.mem_cons_of_mem field member) c v hv hc (by omega)
    refine ⟨(field.name, value') :: values, reads.map.bind readsOthers.map, ?_⟩
    intro name member
    by_cases own : name = field.name
    · subst own
      exact ⟨value', value, by simp, found, same⟩
    · rw [Assoc.lookup_cons_of_ne own]
      exact agree name ((List.mem_cons.mp member).resolve_left own)

/-- A record of a schema whose transactions are, at every depth, of that schema too. -/
inductive Record.BoundTo (schema : Schema) : Record → Prop
  | intro {record : Record} (own : record.schema = schema)
      (nested : ∀ name list, record.get? name = some (.transactions list) →
        ∀ tx ∈ list, BoundTo schema tx) : BoundTo schema record

theorem Record.BoundTo.schema_eq {schema : Schema} {record : Record} (h : record.BoundTo schema) :
    record.schema = schema := by
  cases h
  assumption

theorem Record.lookup_of_get? {record : Record} {name : String} {value : Value}
    (h : record.get? name = some value) : record.values.lookup name = some value := by
  unfold get? at h
  split at h
  · exact h
  · cases h

/-- The transactions of a field are among the values that the record holds. -/
theorem Record.transactions_of_get? {record : Record} {name : String} {list : List Record}
    (h : record.get? name = some (.transactions list)) :
    list ∈ record.values.filterMap fun p => p.2.asTransactions? := by
  have held : (name, .transactions list) ∈ record.values :=
    Assoc.mem_of_lookup (Record.lookup_of_get? h)
  exact List.mem_filterMap.mpr ⟨_, held, rfl⟩

/-- It is enough to look at the values that the record holds, dormant ones included. -/
theorem Record.BoundTo.of_values {schema : Schema} {values : List (String × Value)}
    (h : ∀ list ∈ values.filterMap fun p => p.2.asTransactions?, ∀ tx ∈ list, BoundTo schema tx) :
    BoundTo schema ⟨schema, values⟩ := by
  refine .intro rfl fun name list found => h list ?_
  exact Record.transactions_of_get? found

theorem Schema.contains_of_mem {schema : Schema} {name : String} (h : name ∈ schema.names) :
    schema.contains name = true := by
  obtain ⟨field, member, rfl⟩ := List.mem_map.mp h
  simp only [contains, field?, List.find?_isSome]
  exact ⟨field, member, by simp⟩

theorem Record.get?_of_mem (record : Record) {name : String} (h : name ∈ record.schema.names) :
    record.get? name = record.values.lookup name := by
  rw [get?, if_pos (Schema.contains_of_mem h)]

theorem Record.mem_names_of_get? {record : Record} {name : String} {value : Value}
    (h : record.get? name = some value) : name ∈ record.schema.names := by
  unfold get? at h
  split at h
  · next contains =>
    obtain ⟨field, present⟩ := Option.isSome_iff_exists.mp contains
    have own : field.name = name := by simpa using List.find?_some present
    exact own ▸ List.mem_map_of_mem (List.mem_of_find?_eq_some present)
  · cases h

/-- Records of one schema have the same content if they have values of the same content. -/
theorem Record.sameContent_of_values {a b : Record} (schema : a.schema = b.schema)
    (h : ∀ name ∈ a.schema.names, ∃ v w, a.get? name = some v ∧ b.get? name = some w ∧
      v.sameContent w = true) : a.sameContent b = true := by
  rw [Record.sameContent_iff, ← schema]
  intro name member
  obtain ⟨v, w, hv, hw, same⟩ := h name (by simpa using member)
  simp only [effective?, hv, hw, agree, same]

/-- A record that is written reads back, if as many levels of nesting are allowed as it has
bytes. -/
theorem Record.BoundTo.reads {schema : Schema} {record : Record} (bound : record.BoundTo schema)
    {b : Bytes} (written : record.write = .ofBytes b) (small : b.length < UInt64.size) (depth : Nat)
    (enough : b.length ≤ depth) :
    ∃ record', (schema.readNested (depth + 1)).Reads b record' ∧ record'.schema = schema ∧
      ∀ name ∈ schema.names, ∃ v w, record'.get? name = some v ∧ record.get? name = some w ∧
        v.sameContent w = true := by
  induction bound generalizing b depth with
  | @intro record own nested ih =>
    subst own
    -- a transaction in the record has a field of transactions itself, so it takes a byte at least
    have shorter {field : Field} (member : field ∈ record.schema.fields)
        (encoding : field.encoding = .transactions) {list : List Record}
        (found : record.values.lookup field.name = some (.transactions list)) {tx : Record}
        (inList : tx ∈ list) {d : Bytes} (hd : tx.write = .ofBytes d) (less : d.length < b.length) :
        0 < d.length ∧ ∃ tx', (record.schema.readNested depth).Reads d tx' ∧
          tx'.sameContent tx = true := by
      have present : record.get? field.name = some (.transactions list) := by
        rw [record.get?_of_mem (List.mem_map_of_mem member), found]
      have same := (nested _ list present tx inList).schema_eq
      have some : 0 < d.length := by
        have own : field ∈ tx.schema.fields := same ▸ member
        have least := Record.field_minLength_le hd own
        have one : field.minLength = 1 := by simp only [Field.minLength, encoding]
        omega
      obtain ⟨level, rfl⟩ : ∃ level, depth = level + 1 := ⟨depth - 1, by omega⟩
      obtain ⟨tx', reads, own, agree⟩ := ih _ list present tx inList hd (by omega) level (by omega)
      refine ⟨some, tx', reads, Record.sameContent_of_values (own.trans same.symm) ?_⟩
      rw [own]
      exact agree
    rw [Record.write_eq] at written
    obtain ⟨values, reads, agree⟩ := sequence_reads (record.schema.readNested depth) written
      fun field member c value found writes le => by
        apply writes.reads (by omega)
        rintro list encoding rfl tx inList d hd less
        exact shorter member encoding found inList hd (by omega)
    refine ⟨⟨record.schema, values⟩, reads.map, rfl, ?_⟩
    intro name member
    rw [Record.get?_of_mem ⟨record.schema, values⟩ member, Record.get?_of_mem record member]
    exact agree name member

/-- **Reading undoes writing.** A transaction that can be written is read back from its bytes, with
the same content and the same value for every field. A byte string in memory is shorter than 2⁶⁴. -/
theorem Record.ofBytes_toBytes {schema : Schema} {tx : Record} {b : Bytes}
    (bound : tx.BoundTo schema) (written : tx.toBytes = .ok b) (small : b.length < UInt64.size) :
    ∃ tx', Record.ofBytes schema b = .ok tx' ∧ tx'.sameContent tx = true ∧
      ∀ field ∈ schema.fields, agree (tx'.get? field.name) (tx.get? field.name) = true := by
  obtain ⟨tx', reads, own, values⟩ :=
    bound.reads (Written.toExcept_eq_ok_iff.mp written) small b.length (Nat.le_refl _)
  have read : Record.ofBytes schema b = .ok tx' := reads.whole
  refine ⟨tx', read, ?_, ?_⟩
  · apply Record.sameContent_of_values (own.trans bound.schema_eq.symm)
    rw [own]
    exact values
  · intro field member
    obtain ⟨v, w, hv, hw, same⟩ := values field.name (List.mem_map_of_mem member)
    simp only [hv, hw, agree, same]

/-- A layout whose transactions hold transactions. -/
def Schema.nesting : Schema :=
  ⟨[⟨"n", .integer ⟨.big, true, 2⟩, none, .int 0⟩, ⟨"memo", .bytes, none, .bytes []⟩,
    ⟨"inner", .transactions, none, .transactions []⟩]⟩

/-- A transaction with a transaction in it, and a value that the layout has no field for. -/
def Record.nesting : Record :=
  ⟨.nesting, [("n", .int (-2)), ("memo", .bytes [7]), ("dormant", .int 1),
    ("inner", .transactions [⟨.nesting, [("inner", .transactions []), ("n", .int 258),
      ("memo", .bytes [])]⟩])]⟩

theorem Record.ofBytes_toBytes_nesting :
    Record.nesting.BoundTo .nesting ∧
    Record.nesting.toBytes = .ok [0xff, 0xfe, 1, 7, 1, 1, 2, 0, 0] ∧
    ∃ tx', Record.ofBytes .nesting [0xff, 0xfe, 1, 7, 1, 1, 2, 0, 0] = .ok tx' ∧
      tx'.sameContent .nesting = true ∧
      ∀ field ∈ Schema.nesting.fields,
        agree (tx'.get? field.name) (Record.nesting.get? field.name) = true := by
  have bound : Record.nesting.BoundTo .nesting := by
    apply Record.BoundTo.of_values
    simp only [List.filterMap, Value.asTransactions?, List.forall_mem_singleton]
    exact Record.BoundTo.of_values (by simp [Value.asTransactions?])
  have written : Record.nesting.toBytes = .ok [0xff, 0xfe, 1, 7, 1, 1, 2, 0, 0] := by
    rfl
  exact ⟨bound, written, Record.ofBytes_toBytes bound written (by decide)⟩

end LedgerScript
