import ChainExtract.Chain.Cursor
import ChainExtract.Value

/-!
# Chain variables

The variables through which programs read the block, transaction and log
entry being visited.
-/

namespace ChainExtract

/-- How a chain variable gets its value from the item it belongs to. -/
inductive ChainReading where
  | block (read : Block → Value)
  | transaction (read : Transaction → Value)
  | logEntry (read : LogEntry → Value)

/-- A variable that names a property of a chain item. -/
structure ChainVariable where
  name : String
  type : ValueType
  reading : ChainReading

namespace ChainVariable

/-- The kind of item that the variable reads. -/
def scope (var : ChainVariable) : Scope :=
  match var.reading with
  | .block _ => .block
  | .transaction _ => .transaction
  | .logEntry _ => .logEntry

/-- The value of the variable at a cursor, which must point at its item. -/
def resolve (var : ChainVariable) (cursor : Cursor) : Except Error Value :=
  let value? :=
    match var.reading with
    | .block read => cursor.block.map read
    | .transaction read => cursor.transaction.map read
    | .logEntry read => cursor.logEntry.map read
  match value? with
  | some value => .ok value
  | none => .error (.unsetCursor var.name var.scope)

/-- The variables in the order of their names. The recipient of a transaction
that creates a contract reads as the zero address. -/
def catalog : List ChainVariable :=
  [⟨"block.difficulty", .int, .block fun b => .int b.difficulty⟩,
   ⟨"block.extraData", .bytes, .block fun b => .bytes b.extraData⟩,
   ⟨"block.gasLimit", .int, .block fun b => .int b.gasLimit⟩,
   ⟨"block.gasUsed", .int, .block fun b => .int b.gasUsed⟩,
   ⟨"block.hash", .bytes, .block fun b => .bytes b.hash.bytes⟩,
   ⟨"block.miner", .address, .block fun b => .addr b.miner⟩,
   ⟨"block.number", .int, .block fun b => .int b.number⟩,
   ⟨"block.parentHash", .bytes, .block fun b => .bytes b.parentHash.bytes⟩,
   ⟨"block.timestamp", .int, .block fun b => .int b.timestamp⟩,
   ⟨"block.transactionCount", .int, .block fun b => .int b.transactions.length⟩,
   ⟨"log.address", .address, .logEntry fun l => .addr l.address⟩,
   ⟨"log.data", .bytes, .logEntry fun l => .bytes l.data⟩,
   ⟨"log.index", .int, .logEntry fun l => .int l.index⟩,
   ⟨"log.removed", .bool, .logEntry fun l => .bool l.removed⟩,
   ⟨"log.topics", .list .bytes, .logEntry fun l => .list (l.topics.map fun t => .bytes t.bytes)⟩,
   ⟨"transaction.from", .address, .transaction fun t => .addr t.sender⟩,
   ⟨"transaction.gas", .int, .transaction fun t => .int t.gas⟩,
   ⟨"transaction.gasPrice", .int, .transaction fun t => .int t.gasPrice⟩,
   ⟨"transaction.gasUsed", .int, .transaction fun t => .int t.gasUsed⟩,
   ⟨"transaction.hash", .bytes, .transaction fun t => .bytes t.hash.bytes⟩,
   ⟨"transaction.index", .int, .transaction fun t => .int t.index⟩,
   ⟨"transaction.input", .bytes, .transaction fun t => .bytes t.input⟩,
   ⟨"transaction.nonce", .int, .transaction fun t => .int t.nonce⟩,
   ⟨"transaction.success", .bool, .transaction fun t => .bool t.success⟩,
   ⟨"transaction.to", .address, .transaction fun t => .addr (t.recipient.getD (.zero 20))⟩,
   ⟨"transaction.value", .int, .transaction fun t => .int t.value⟩]

/-- The variable of a name. -/
def find? (name : String) : Option ChainVariable := catalog.find? (·.name == name)

/-- The variables that can be read while an item of the scope is visited. -/
def visibleIn (scope : Scope) : List ChainVariable := catalog.filter (·.scope.visibleIn scope)

/-- The value of the variable of a name at a cursor. -/
def valueAt (name : String) (cursor : Cursor) : Except Error Value :=
  match find? name with
  | some var => var.resolve cursor
  | none => .error (.undefinedVariable name)

end ChainVariable

end ChainExtract
