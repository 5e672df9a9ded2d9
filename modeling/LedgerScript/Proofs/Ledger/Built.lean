import LedgerScript.Ledger.Block
import LedgerScript.Proofs.Chain.Reachable
import LedgerScript.Proofs.Ledger.Complete

namespace LedgerScript

/-- What the operations are on. -/
inductive Part where
  | value (value : Value)
  | field (field : Field)
  | schema (schema : Schema)
  | record (record : Record)
  | block (block : Block)

namespace Part

/-- What comes about by the operations. A value may be any number, byte string, inputs or outputs,
but transactions in it have to be built, and so have the defaults of fields. -/
inductive Built : Part → Prop
  -- values
  | int (n : Int64) : Built (.value (.int n))
  | bytes (b : Bytes) : Built (.value (.bytes b))
  | inputs (list : List Input) : Built (.value (.inputs list))
  | outputs (list : List Output) : Built (.value (.outputs list))
  | transactions {list : List Record} (each : ∀ tx ∈ list, Built (.record tx)) :
      Built (.value (.transactions list))
  | get {record : Record} {name : String} {value : Value} (of : Built (.record record))
      (found : record.get? name = some value) : Built (.value value)
  -- fields and schemas
  | field {name : String} {encoding : Encoding} {byteLength : Option Nat} {default : Option Value}
      {field : Field} (given : ∀ value, default = some value → Built (.value value))
      (made : Field.make name encoding byteLength default = .ok field) : Built (.field field)
  | schema {fields : List Field} {schema : Schema} (each : ∀ field ∈ fields, Built (.field field))
      (made : Schema.ofFields fields = .ok schema) : Built (.schema schema)
  | schemaOf {record : Record} (of : Built (.record record)) : Built (.schema record.schema)
  | fieldOf {schema : Schema} {field : Field} (of : Built (.schema schema))
      (member : field ∈ schema.fields) : Built (.field field)
  | defaultOf {field : Field} (of : Built (.field field)) : Built (.value field.default)
  -- records
  | new {schema : Schema} (of : Built (.schema schema)) : Built (.record (.new schema))
  | withValues {schema : Schema} {values : List (String × Value)} {record : Record}
      (of : Built (.schema schema)) (each : ∀ binding ∈ values, Built (.value binding.2))
      (done : Record.withValues schema values = .ok record) : Built (.record record)
  | read {schema nested : Schema} {record : Record} {input rest : Bytes}
      (of : Built (.schema schema)) (inner : Built (.schema nested))
      (done : schema.read nested input = .ok record rest) : Built (.record record)
  | transaction {list : List Record} {tx : Record} (of : Built (.value (.transactions list)))
      (member : tx ∈ list) : Built (.record tx)
  | set {record next : Record} {name : String} {value : Value} (of : Built (.record record))
      (given : Built (.value value)) (done : record.set name value = .ok next) :
      Built (.record next)
  | setInputs {record next : Record} {list : List Input} (of : Built (.record record))
      (done : record.setInputs list = .ok next) : Built (.record next)
  | setOutputs {record next : Record} {list : List Output} (of : Built (.record record))
      (done : record.setOutputs list = .ok next) : Built (.record next)
  | migrate {record : Record} {schema : Schema} (of : Built (.record record))
      (target : Built (.schema schema)) : Built (.record (record.migrate schema))
  -- blocks, whose header and body may be taken out, changed and put back
  | block {header body : Record} (head : Built (.record header)) (rest : Built (.record body)) :
      Built (.block ⟨header, body⟩)
  | header {block : Block} (of : Built (.block block)) : Built (.record block.header)
  | body {block : Block} (of : Built (.block block)) : Built (.record block.body)
  | newBlock {layout : Layout} (of : ∀ kind, Built (.schema (layout.schema kind))) :
      Built (.block (.new layout))
  | readBlock {layout : Layout} {block : Block} {input rest : Bytes}
      (of : ∀ kind, Built (.schema (layout.schema kind)))
      (done : Block.read layout input = .ok block rest) : Built (.block block)
  | setTransactions {block next : Block} {list : List Record} (of : Built (.block block))
      (each : ∀ tx ∈ list, Built (.record tx)) (done : block.setTransactions list = .ok next) :
      Built (.block next)
  | rebind {block : Block} {layout : Layout} (of : Built (.block block))
      (target : ∀ kind, Built (.schema (layout.schema kind))) : Built (.block (block.rebind layout))

/-- The records in it, and those made with it, are complete. -/
def Sound : Part → Prop
  | .value v => v.All Record.Sound
  | .field f => f.Suits f.default
  | .schema s => s.Sound
  | .record r => r.Sound
  | .block b => b.Sound

/-- What is built is sound. The induction is over the operations, and each keeps it. -/
theorem Built.sound {part : Part} (built : part.Built) : part.Sound := by
  induction built with
  | int | bytes | inputs | outputs => exact nofun
  | transactions each ih =>
    rintro _ ⟨⟩
    exact ih
  | get of found ih => exact Record.Sound.value ih found
  | field given made ih => exact Field.suits_of_make ih made
  | schema each made ih => exact Schema.sound_of_ofFields ih made
  | schemaOf of ih => exact (Record.sound_iff.mp ih).1
  | fieldOf of member ih => exact Schema.Sound.defaults ih _ member
  | defaultOf of ih => exact Field.Suits.nested ih
  | new of ih => exact Schema.Sound.new ih
  | withValues of each done ihSchema ihValues =>
    exact Record.Sound.setAll (Schema.Sound.new ihSchema) ihValues done
  | read of inner done ihSchema ihNested => exact Schema.Sound.read ihSchema ihNested done
  | transaction of member ih => exact ih _ rfl _ member
  | set of given done ih ihValue => exact Record.Sound.set ih ihValue done
  | @setInputs _ _ list of done ih =>
    have plain : (Value.inputs list).All Record.Sound := nofun
    exact Record.Sound.setWith ih plain done
  | @setOutputs _ _ list of done ih =>
    have plain : (Value.outputs list).All Record.Sound := nofun
    exact Record.Sound.setWith ih plain done
  | migrate of target ih ihSchema => exact Record.Sound.migrate ih ihSchema
  | block head rest ihHead ihRest => exact ⟨ihHead, ihRest⟩
  | header of ih => exact Block.Sound.header ih
  | body of ih => exact Block.Sound.body ih
  | newBlock of ih => exact Block.sound_new ih
  | readBlock of done ih => exact Block.sound_of_read ih done
  | setTransactions of each done ih ihEach => exact Block.Sound.setTransactions ih ihEach done
  | rebind of target ih ihTarget => exact Block.Sound.rebind ih ihTarget

theorem built_integer (name : String) (signed : Bool) (width : Nat) (default : Int64) :
    Built (.field (.integer name signed width default)) := by
  have made : Field.make name (.integer ⟨.little, signed, width⟩) none (some (.int default)) =
      .ok (.integer name signed width default) := rfl
  refine .field ?_ made
  rintro _ ⟨⟩
  exact .int default

theorem built_hash (name : String) : Built (.field (.hash name)) := by
  have made : Field.make name .bytes (some 32) none = .ok (.hash name) := rfl
  refine .field ?_ made
  exact nofun

theorem built_empty (name : String) (encoding : Encoding) :
    Built (.field (.empty name encoding)) := by
  have made : Field.make name encoding none none = .ok (.empty name encoding) := by
    cases encoding <;> rfl
  refine .field ?_ made
  exact nofun

end Part

/-- The schemas of every built-in preset can be built. -/
theorem Preset.builtin_built :
    ∀ preset ∈ Preset.builtin, ∀ kind, Part.Built (.schema (preset.layout.schema kind)) := by
  intro preset member kind
  refine .schema ?_ (Preset.builtin_accepted preset member kind)
  revert preset
  cases kind <;>
    simp [builtin, bitcoin, clams, freicoin, peercoin, ofTransaction, Layout.schema,
      bitcoinTransaction, bitcoinHeader, bitcoinBody, timedFields, Part.built_integer,
      Part.built_hash, Part.built_empty]

/-- **Whatever is built is complete.** In every record that comes about by the operations each field
has a value of its kind, and so at every depth of its transactions; and when it cannot be written,
alone or in a block, no value was missing or of another kind. -/
theorem Part.Built.records_complete :
    (∀ record, Part.Built (.record record) →
      record.Complete ∧ ∀ e, record.toBytes = .error e → ¬ e.Misfit) ∧
    ∀ block, Part.Built (.block block) →
      block.header.Complete ∧ block.body.Complete ∧ ∀ e, block.toBytes = .error e → ¬ e.Misfit := by
  constructor
  · intro record built
    have sound : record.Sound := built.sound
    exact ⟨sound.complete, fun e failed => sound.complete.toBytes failed⟩
  · intro block built
    have sound : block.Sound := built.sound
    exact ⟨sound.header.complete, sound.body.complete, fun e failed => sound.toBytes failed⟩

/-- A transaction with a time in one of Bitcoin's blocks, the header of which has been given too
short a digest. -/
def Block.shortened : Except Error Block := do
  let tx ← (Record.new Preset.peercoin.layout.transaction).set "Timestamp" (.int 7)
  let block ← (Block.new Preset.bitcoin.layout).setTransactions [tx]
  let header ← block.header.set "hashPrevBlock" (.bytes [1])
  pure ⟨header, block.body⟩

/-- Under another layout that block is complete. It cannot be written, but for its digest. -/
theorem Part.Built.records_complete_shortened :
    ∃ block, Block.shortened = .ok block ∧
      let rebound := block.rebind Preset.clams.layout
      Part.Built (.block rebound) ∧ rebound.header.Complete ∧ rebound.body.Complete ∧
      rebound.toBytes = .error (.lengthMismatch "hashPrevBlock" 32 1) ∧
      ¬ (Error.lengthMismatch "hashPrevBlock" 32 1).Misfit := by
  have schemas (preset : Preset) (member : preset ∈ Preset.builtin) (kind : Kind) :=
    Preset.builtin_built preset member kind
  have bitcoin := schemas .bitcoin (by simp [Preset.builtin])
  have clams := schemas .clams (by simp [Preset.builtin])
  have peercoin := schemas .peercoin (by simp [Preset.builtin])
  have built {block : Block} (done : Block.shortened = .ok block) : Part.Built (.block block) := by
    obtain ⟨tx, timed, done⟩ := Fallible.bind_eq_ok_iff.mp done
    obtain ⟨block, holding, done⟩ := Fallible.bind_eq_ok_iff.mp done
    obtain ⟨header, shortened, done⟩ := Fallible.bind_eq_ok_iff.mp done
    cases done
    have ofTx := Part.Built.set (.new (peercoin .transaction)) (.int 7) timed
    have ofBlock := Part.Built.setTransactions (.newBlock bitcoin) (by simpa using ofTx) holding
    exact .block (.set (.header ofBlock) (.bytes [1]) shortened) (.body ofBlock)
  refine ⟨_, rfl, ?_⟩
  intro rebound
  have ofRebound : Part.Built (.block rebound) := .rebind (built rfl) clams
  have failed : rebound.toBytes = .error (.lengthMismatch "hashPrevBlock" 32 1) := by
    rfl
  obtain ⟨header, body, fits⟩ := Part.Built.records_complete.2 rebound ofRebound
  exact ⟨ofRebound, header, body, failed, fits _ failed⟩

end LedgerScript
