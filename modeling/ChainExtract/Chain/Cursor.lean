import ChainExtract.Chain.Block
import ChainExtract.Error

/-!
# The cursor

The cursor says which block, transaction and log entry are being visited.
Transactions and log entries are known by their position in the block.
-/

namespace ChainExtract

structure Cursor where
  block : Option Block := none
  transactionAt : Option Nat := none
  logEntryAt : Option Nat := none
deriving DecidableEq

namespace Cursor

def empty : Cursor := {}

def transaction (cursor : Cursor) : Option Transaction := do
  let index ← cursor.transactionAt
  let block ← cursor.block
  block.transactions[index]?

def logEntry (cursor : Cursor) : Option LogEntry := do
  let index ← cursor.logEntryAt
  let transaction ← cursor.transaction
  transaction.logs[index]?

/-- Points at a block and at none of its items. -/
def atBlock (block : Block) : Cursor := { block := some block }

/-- Points at a transaction of the block and at none of its log entries. -/
def atTransaction (cursor : Cursor) (index : Nat) : Except Error Cursor :=
  match cursor.block with
  | none => .error (.unsetCursor "transaction cursor" .block)
  | some block =>
    let count := block.transactions.length
    if index < count then
      .ok { cursor with transactionAt := some index, logEntryAt := none }
    else
      .error (.invalidParameters "transaction cursor"
        s!"index {index} out of bounds for a block of {count} transactions")

/-- Points at no transaction and no log entry. -/
def withoutTransaction (cursor : Cursor) : Cursor :=
  { cursor with transactionAt := none, logEntryAt := none }

/-- Points at a log entry of the transaction. -/
def atLogEntry (cursor : Cursor) (index : Nat) : Except Error Cursor :=
  match cursor.transaction with
  | none => .error (.unsetCursor "log entry cursor" .transaction)
  | some transaction =>
    let count := transaction.logs.length
    if index < count then .ok { cursor with logEntryAt := some index }
    else
      .error (.invalidParameters "log entry cursor"
        s!"index {index} out of bounds for a transaction of {count} log entries")

def withoutLogEntry (cursor : Cursor) : Cursor := { cursor with logEntryAt := none }

end Cursor

end ChainExtract
