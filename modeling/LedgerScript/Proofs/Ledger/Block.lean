import LedgerScript.Ledger.Block
import LedgerScript.Proofs.Chain.Reachable
import LedgerScript.Proofs.Ledger.Delimited
import LedgerScript.Proofs.Ledger.Flat

namespace LedgerScript

open Decoder (Reads)

/-- A record reads back if its transactions are of the given schema at every depth and no list of
them is one of nothings. -/
theorem Record.reads_of_nested (nested : Schema) (record : Record)
    (bound : ∀ name list, record.get? name = some (.transactions list) →
      ∀ tx ∈ list, ∀ c, tx.write = .ofBytes c → tx.BoundTo nested)
    (some : ∀ field ∈ record.schema.fields, field.encoding = .transactions → 1 ≤ nested.minLength)
    {b : Bytes} (written : record.write = .ofBytes b) (small : b.length < UInt64.size) :
    ∃ record', (record.schema.read nested).Reads b record' ∧
      record'.sameContent record = true := by
  have fields := written
  rw [Record.write_eq] at fields
  -- one level more than there are bytes, so that the bound on nesting does not matter
  obtain ⟨values, reads, agree⟩ := sequence_reads (nested.readNested (b.length + 1)) fields
    fun field member c value found writes le => by
      apply writes.reads (by omega)
      rintro list encoding rfl tx inList d hd less
      have inSchema : field.name ∈ record.schema.names := List.mem_map_of_mem member
      have present : record.get? field.name = Option.some (.transactions list) :=
        (record.get?_of_mem inSchema).trans found
      have own : tx.BoundTo nested := bound field.name list present tx inList d hd
      have one : 1 ≤ d.length := by
        have announced := some field member encoding
        have least := Record.minLength_le hd
        rw [own.schema_eq] at least
        omega
      obtain ⟨tx', readsTx, schema, sameValues⟩ := own.reads hd (by omega) b.length (by omega)
      refine ⟨one, tx', readsTx, ?_⟩
      apply Record.sameContent_of_values (schema.trans own.schema_eq.symm)
      rw [schema]
      exact sameValues
  have whole : (record.schema.readWith (nested.readNested (b.length + 1))).Reads b
      ⟨record.schema, values⟩ := reads.map
  have read : record.schema.read nested b = .ok ⟨record.schema, values⟩ [] := by
    rw [Schema.read_eq record.schema nested (Nat.le_succ b.length)]
    simpa using whole []
  obtain ⟨taken, split, again, -⟩ := Schema.read_delimits some read
  rw [List.append_nil] at split
  subst split
  have schema : (Record.mk record.schema values).schema = record.schema := rfl
  refine ⟨⟨record.schema, values⟩, again, Record.sameContent_of_values schema ?_⟩
  intro name member
  rw [Record.get?_of_mem ⟨record.schema, values⟩ member, Record.get?_of_mem record member]
  exact agree name member

namespace Block

/-- The header, the body and the transactions in the body are of the layout. -/
structure BoundTo (layout : Layout) (block : Block) : Prop where
  header : block.header.schema = layout.blockHeader
  body : block.body.schema = layout.blockBody
  transactions : ∀ name list, block.body.get? name = some (.transactions list) →
    ∀ tx ∈ list, tx.schema = layout.transaction

/-- It is enough to look at the values that the body holds, dormant ones included. -/
theorem BoundTo.of_values {layout : Layout} {block : Block}
    (header : block.header.schema = layout.blockHeader)
    (body : block.body.schema = layout.blockBody)
    (h : ∀ list ∈ block.body.values.filterMap fun p => p.2.asTransactions?,
      ∀ tx ∈ list, tx.schema = layout.transaction) : block.BoundTo layout :=
  ⟨header, body, fun _ list found => h list (Record.transactions_of_get? found)⟩

theorem BoundTo.reads {layout : Layout} {block : Block} (bound : block.BoundTo layout)
    (header : layout.blockHeader.Flat) (transaction : layout.transaction.Flat)
    (some : 1 ≤ layout.transaction.minLength) {b : Bytes} (written : block.write = .ofBytes b)
    (small : b.length < UInt64.size) :
    ∃ block', (Block.read layout).Reads b block' ∧ block'.sameContent block = true := by
  obtain ⟨x, y, first, second, rfl⟩ := Written.append_eq_ofBytes_iff.mp written
  rw [List.length_append] at small
  have flat : block.header.schema.Flat := by
    rw [bound.header]
    exact header
  obtain ⟨header', readsHeader, sameHeader⟩ :=
    Record.reads_of_nested layout.blockHeader block.header
      (fun name list found tx inList c hc => by
        have member : name ∈ block.header.schema.names := Record.mem_names_of_get? found
        obtain ⟨value, own, apart⟩ := block.header.get?_of_write flat first member
        rw [own] at found
        exact absurd (Option.some.inj found) (apart list))
      (fun field member encoding => absurd encoding (flat field member)) first (by omega)
  obtain ⟨body', readsBody, sameBody⟩ :=
    Record.reads_of_nested layout.transaction block.body
      (fun name list found tx inList c hc => by
        have own := bound.transactions name list found tx inList
        rw [← own] at transaction ⊢
        exact Record.BoundTo.of_flat transaction hc)
      (fun field member encoding => some) second (by omega)
  rw [bound.header] at readsHeader
  rw [bound.body] at readsBody
  refine ⟨⟨header', body'⟩, readsHeader.bind readsBody.map, ?_⟩
  simp [Block.sameContent, sameHeader, sameBody]

/-- **Reading undoes writing.** A block that can be written is read back from its bytes with the
same content, provided that its transactions announce a byte at least. A byte string in memory is
shorter than 2⁶⁴. -/
theorem ofBytes_of_toBytes {layout : Layout} {block : Block} (bound : block.BoundTo layout)
    (header : layout.blockHeader.Flat) (transaction : layout.transaction.Flat)
    (some : 1 ≤ layout.transaction.minLength) {b : Bytes} (written : block.toBytes = .ok b)
    (small : b.length < UInt64.size) :
    ∃ block', Block.ofBytes layout b = .ok block' ∧ block'.sameContent block = true := by
  have laid : block.write = .ofBytes b := Written.toExcept_eq_ok_iff.mp written
  obtain ⟨block', reads, same⟩ := bound.reads header transaction some laid small
  exact ⟨block', reads.whole, same⟩

end Block

/-- A layout with a number in front, transactions of one text each, and a seal of two bytes. -/
def Layout.sealed : Layout where
  transaction := ⟨[.empty "memo" .bytes]⟩
  blockHeader := ⟨[⟨"n", .integer ⟨.big, true, 2⟩, none, .int 0⟩]⟩
  blockBody := ⟨[.empty "vtx" .transactions, ⟨"seal", .bytes, some 2, .bytes [0, 0]⟩]⟩

/-- A block of two transactions, one of which has a value that its schema has no field for. -/
def Block.sealed : Block where
  header := ⟨Layout.sealed.blockHeader, [("n", .int (-2))]⟩
  body := ⟨Layout.sealed.blockBody, [("seal", .bytes [8, 9]), ("vtx", .transactions
    [⟨Layout.sealed.transaction, [("memo", .bytes [])]⟩,
     ⟨Layout.sealed.transaction, [("dormant", .int 1), ("memo", .bytes [7])]⟩])]⟩

theorem Block.ofBytes_of_toBytes_sealed :
    Block.sealed.BoundTo .sealed ∧ Layout.sealed.blockHeader.Flat ∧
    Layout.sealed.transaction.Flat ∧ 1 ≤ Layout.sealed.transaction.minLength ∧
    Block.sealed.toBytes = .ok [0xff, 0xfe, 2, 0, 1, 7, 8, 9] ∧
    ∃ block', Block.ofBytes .sealed [0xff, 0xfe, 2, 0, 1, 7, 8, 9] = .ok block' ∧
      block'.sameContent .sealed = true := by
  have bound : Block.sealed.BoundTo .sealed :=
    .of_values rfl rfl (by simp [Block.sealed, Value.asTransactions?])
  have header : Layout.sealed.blockHeader.Flat := by decide
  have transaction : Layout.sealed.transaction.Flat := by decide
  have some : 1 ≤ Layout.sealed.transaction.minLength := by decide
  have written : Block.sealed.toBytes = .ok [0xff, 0xfe, 2, 0, 1, 7, 8, 9] := by rfl
  exact ⟨bound, header, transaction, some, written,
    Block.ofBytes_of_toBytes bound header transaction some written (by decide)⟩

/-- The registry whose transactions have no fields. -/
def Registry.hollow : Registry := Registry.initial.setSchema .transaction ⟨[]⟩

/-- A block of defaults with one transaction, which is nothing. -/
def Block.hollow : Block where
  header := .new Registry.hollow.layout.blockHeader
  body := ⟨Registry.hollow.layout.blockBody, [("vtx", .transactions [.new ⟨[]⟩])]⟩

theorem Block.ofBytes_hollow :
    Registry.hollow.Reachable ∧ Registry.hollow.layout.blockHeader.Flat ∧
    Registry.hollow.layout.transaction.Flat ∧ Block.hollow.BoundTo Registry.hollow.layout ∧
    ∃ b, Block.hollow.toBytes = .ok b ∧ b.length = 81 ∧
      Block.ofBytes Registry.hollow.layout b = .error (.truncated 1 0) := by
  have reachable : Registry.hollow.Reachable := .step .initial (.setSchema .transaction ⟨[]⟩ rfl)
  have bound : Block.hollow.BoundTo Registry.hollow.layout :=
    .of_values rfl rfl (by simp [Block.hollow, Value.asTransactions?, Record.new]; rfl)
  exact ⟨reachable, by decide, by decide, bound, _, rfl, rfl, rfl⟩

end LedgerScript
