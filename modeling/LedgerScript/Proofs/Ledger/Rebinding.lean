import LedgerScript.Proofs.Ledger.Block
import LedgerScript.Proofs.Ledger.Migration

namespace LedgerScript.Block

/-- All of the later block follows the layout, dormant transactions included, and each value of the
earlier block, of its header, its body or one of its transactions, is kept where the layout has a
field of the name and the kind. -/
structure RebindsTo (layout : Layout) (old new : Block) : Prop where
  header : new.header.schema = layout.blockHeader
  body : new.body.schema = layout.blockBody
  transactions : ∀ name list, (name, .transactions list) ∈ new.body.values →
    ∀ tx ∈ list, tx.schema = layout.transaction
  headerKept : old.header.KeepsShared Eq new.header
  bodyKept : old.body.KeepsShared (Value.ReboundTo layout.transaction) new.body

theorem RebindsTo.boundTo {layout : Layout} {old new : Block} (h : RebindsTo layout old new) :
    new.BoundTo layout := by
  refine ⟨h.header, h.body, fun name list found => ?_⟩
  exact h.transactions name list (Assoc.mem_of_lookup (Record.lookup_of_get? found))

theorem rebind_rebindsTo (block : Block) {layout : Layout} (accepted : layout.Accepted) :
    block.RebindsTo layout (block.rebind layout) := by
  have unique (kind : Kind) : (layout.schema kind).names.Nodup :=
    Schema.accepted_iff.mp (accepted kind)
  constructor
  case header => rfl
  case body => rfl
  case transactions =>
    intro name list member
    exact Record.schema_of_mem_rebindTransactions _ member
  case headerKept => exact block.header.migrate_keepsShared (unique .blockHeader)
  case bodyKept => exact block.body.rebind_keepsShared (unique .blockBody) (unique .transaction)

/-- **Rebinding yields a block of the chain.** Whatever schemas the parts of a block had, under the
active layout of a registry all of them follow it and keep what they share with it, and if the
block that results can be written it reads back with the same content. -/
theorem rebind_readable (block : Block) {registry : Registry} (reachable : registry.Reachable)
    (header : registry.snapshot.layout.blockHeader.Flat)
    (transaction : registry.snapshot.layout.transaction.Flat)
    (some : 1 ≤ registry.snapshot.layout.transaction.minLength) :
    let layout := registry.snapshot.layout
    block.RebindsTo layout (block.rebind layout) ∧
    ∀ b, (block.rebind layout).toBytes = .ok b → b.length < UInt64.size →
      ∃ block', Block.ofBytes layout b = .ok block' ∧
        block'.sameContent (block.rebind layout) = true := by
  intro layout
  have rebinds : block.RebindsTo layout (block.rebind layout) :=
    block.rebind_rebindsTo reachable.accepted
  refine ⟨rebinds, fun b written small => ?_⟩
  have laid : (block.rebind layout).write = .ofBytes b := Written.toExcept_eq_ok_iff.mp written
  obtain ⟨block', reads, same⟩ := rebinds.boundTo.reads header transaction some laid small
  exact ⟨block', reads.whole, same⟩

/-- The registry whose layout has been replaced by the sealed one, schema by schema. -/
def sealedRegistry : Registry :=
  ((Registry.initial.setSchema .transaction Layout.sealed.transaction).setSchema .blockHeader
    Layout.sealed.blockHeader).setSchema .blockBody Layout.sealed.blockBody

/-- A block whose header has a number of another width and one number more, and whose body has a
seal of another kind and two lists of transactions, one of them dormant. Of the transactions one has
no text, one has a number in its place, and one has a text that lies dormant. -/
def mixed : Block where
  header := ⟨⟨[.integer "time" false 4 0, .integer "n" false 8 0]⟩,
    [("n", .int 258), ("time", .int 3)]⟩
  body := ⟨⟨[.empty "vtx" .transactions, .integer "seal" false 2 0]⟩,
    [("vtx", .transactions
      [⟨⟨[]⟩, []⟩, ⟨⟨[.integer "memo" true 1 0]⟩, [("memo", .int 5)]⟩,
        ⟨⟨[]⟩, [("memo", .bytes [7, 7])]⟩]),
      ("old", .transactions [⟨⟨[]⟩, []⟩]), ("seal", .int 9)]⟩

theorem rebind_readable_mixed :
    sealedRegistry.Reachable ∧ sealedRegistry.snapshot.layout.blockHeader.Flat ∧
    sealedRegistry.snapshot.layout.transaction.Flat ∧
    1 ≤ sealedRegistry.snapshot.layout.transaction.minLength ∧
    mixed.RebindsTo sealedRegistry.snapshot.layout (mixed.rebind sealedRegistry.snapshot.layout) ∧
    (mixed.rebind sealedRegistry.snapshot.layout).toBytes = .ok [1, 2, 3, 0, 0, 2, 7, 7, 0, 0] ∧
    ∃ block', Block.ofBytes sealedRegistry.snapshot.layout [1, 2, 3, 0, 0, 2, 7, 7, 0, 0] =
        .ok block' ∧
      block'.sameContent (mixed.rebind sealedRegistry.snapshot.layout) = true := by
  have accepted : Layout.sealed.Accepted := fun kind => by cases kind <;> rfl
  have reachable : sealedRegistry.Reachable :=
    .step (.step (.step .initial (.setSchema .transaction _ (accepted .transaction)))
      (.setSchema .blockHeader _ (accepted .blockHeader)))
      (.setSchema .blockBody _ (accepted .blockBody))
  have header : sealedRegistry.snapshot.layout.blockHeader.Flat := by decide
  have transaction : sealedRegistry.snapshot.layout.transaction.Flat := by decide
  have some : 1 ≤ sealedRegistry.snapshot.layout.transaction.minLength := by decide
  have written : (mixed.rebind sealedRegistry.snapshot.layout).toBytes =
      .ok [1, 2, 3, 0, 0, 2, 7, 7, 0, 0] := by
    rfl
  obtain ⟨rebinds, reads⟩ := rebind_readable mixed reachable header transaction some
  exact ⟨reachable, header, transaction, some, rebinds, written, reads _ written (by decide)⟩

end LedgerScript.Block
