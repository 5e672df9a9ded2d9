import LedgerScript.Ledger.Layout
import LedgerScript.Ledger.Transaction

namespace LedgerScript

structure Block where
  header : Record
  body : Record

namespace Block

/-- The block of a layout's defaults. -/
def new (layout : Layout) : Block := ⟨.new layout.blockHeader, .new layout.blockBody⟩

/-- A header with a body of defaults. -/
def ofHeader (header : Record) (body : Schema) : Block := ⟨header, .new body⟩

/-- The transactions of the first field that holds some. -/
def transactions (block : Block) : List Record :=
  ((block.body.getWith? .transactions).bind Value.asTransactions?).getD []

def setTransactions (block : Block) (list : List Record) : Except Error Block :=
  (block.body.setWith .transactions "transactions" (.transactions list)).map fun body =>
    { block with body := body }

/-- The block under another layout, its transactions included. -/
def rebind (block : Block) (layout : Layout) : Block where
  header := block.header.migrate layout.blockHeader
  body := (block.body.migrate layout.blockBody).rebindTransactions layout.transaction

def read (layout : Layout) : Decoder Block := do
  let header ← layout.blockHeader.read layout.blockHeader
  let body ← layout.blockBody.read layout.transaction
  pure ⟨header, body⟩

def ofBytes (layout : Layout) (bytes : Bytes) : Except Error Block := (read layout).whole bytes

def ofText (layout : Layout) (text : String) : Except Error Block := do
  let bytes ← bytesOfText text
  ofBytes layout bytes

def write (block : Block) : Written := block.header.write ++ block.body.write

def toBytes (block : Block) : Except Error Bytes := block.write.toExcept

def toText (block : Block) : Except Error String := block.toBytes.map Hex.encode

/-- The hash of the header. -/
def hash (block : Block) : Except Error Hash := block.header.hash

def sameContent (a b : Block) : Bool := a.header.sameContent b.header && a.body.sameContent b.body

end Block
end LedgerScript
