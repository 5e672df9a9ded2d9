import LedgerScript.Ledger.Content

namespace LedgerScript

inductive Kind where
  | transaction
  | blockHeader
  | blockBody
deriving DecidableEq, Repr

def Kind.text : Kind → String
  | .transaction => "transaction"
  | .blockHeader => "block header"
  | .blockBody => "block body"

structure Layout where
  transaction : Schema
  blockHeader : Schema
  blockBody : Schema

namespace Layout

def schema (layout : Layout) : Kind → Schema
  | .transaction => layout.transaction
  | .blockHeader => layout.blockHeader
  | .blockBody => layout.blockBody

def withSchema (layout : Layout) (kind : Kind) (schema : Schema) : Layout :=
  match kind with
  | .transaction => { layout with transaction := schema }
  | .blockHeader => { layout with blockHeader := schema }
  | .blockBody => { layout with blockBody := schema }

@[simp] theorem schema_withSchema (layout : Layout) (kind : Kind) (schema : Schema) :
    (layout.withSchema kind schema).schema kind = schema := by
  cases kind <;> rfl

theorem schema_withSchema_of_ne (layout : Layout) {kind other : Kind} (h : other ≠ kind)
    (schema : Schema) : (layout.withSchema kind schema).schema other = layout.schema other := by
  cases kind <;> cases other <;> first | rfl | exact absurd rfl h

end Layout

/-- A record together with what it is a record of. -/
structure Entity where
  kind : Kind
  record : Record

/-- Entities agree when they are of one kind and of the same content. -/
def Entity.sameContent (a b : Entity) : Bool := a.kind == b.kind && a.record.sameContent b.record

end LedgerScript
