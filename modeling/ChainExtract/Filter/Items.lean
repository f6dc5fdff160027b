import ChainExtract.Abi.Event
import ChainExtract.Filter.AddressSet
import ChainExtract.Run.Report

/-!
# Items of the block being visited

Visits of the transactions between given addresses and of the log entries of
an event. The items are chosen before the first is visited. A visit that
fails is reported and does not keep the others from being visited.
-/

namespace ChainExtract

variable {σ : Type}

namespace TransactionFilter

/-- The positions of the transactions between admitted addresses. -/
def matching (senders recipients : AddressSet) (block : Block) : List Nat :=
  (block.transactions.zipIdx.filter fun (transaction, _) =>
    senders.admits (some transaction.sender) && recipients.admits transaction.recipient).map (·.2)

/-- Visits the transactions at the given positions of the block. -/
def visitAll (body : Run σ Unit) : List Nat → Run σ Unit
  | [] => return
  | index :: rest => do
    Run.setCursor (← Run.ofExcept ((← Run.state).cursor.atTransaction index))
    let outcome ← body.attempt
    Run.setCursor (← Run.state).cursor.withoutTransaction
    Run.conclude s!"error processing transaction {index}" outcome
    visitAll body rest

/-- Visits the transactions of the block between admitted addresses. -/
def run (senders recipients : AddressSet) (body : Run σ Unit) : Run σ Unit := do
  match (← Run.state).cursor.block with
  | none => Run.fail (.unsetCursor "transaction filter" .block)
  | some block => visitAll body (matching senders recipients block)

end TransactionFilter

namespace LogEntryFilter

/-- The positions of the log entries of an event from admitted emitters. -/
def matching (event : EventDecl) (emitters : AddressSet) (transaction : Transaction) : List Nat :=
  (transaction.logs.zipIdx.filter fun (entry, _) =>
    event.matchesTopics entry.topics && emitters.admits (some entry.address)).map (·.2)

/-- Points at the log entry at a position of the transaction and decodes what
its event declares. -/
def enter (event : EventDecl) (index : Nat) : Run σ (List (String × Value)) := do
  Run.setCursor (← Run.ofExcept ((← Run.state).cursor.atLogEntry index))
  match (← Run.state).cursor.logEntry with
  | some entry => Run.ofExcept (event.decode entry.topics entry.data)
  | none => return []

/-- Visits the log entry at a position of the transaction: its parameters are
variables while the body runs, and only then. -/
def visit (event : EventDecl) (body : Run σ Unit) (index : Nat) : Run σ Unit := do
  let decoded ← enter event index
  decoded.forM fun (name, value) => Run.assign name value
  let outcome ← body.attempt
  Run.erase (decoded.map (·.1))
  Run.ofExcept outcome

/-- Visits the log entries at the given positions of the transaction, each in
the given way. -/
def visitEach (event : String) (visit : Nat → Run σ Unit) : List Nat → Run σ Unit
  | [] => return
  | index :: rest => do
    let outcome ← (visit index).attempt
    Run.setCursor (← Run.state).cursor.withoutLogEntry
    Run.conclude s!"error processing log entry {index} ({event})" outcome
    visitEach event visit rest

/-- Visits the log entries of the transaction that belong to an event and come
from admitted emitters, each in the given way. -/
def visitMatching (event : EventDecl) (emitters : AddressSet) (visit : Nat → Run σ Unit) :
    Run σ Unit := do
  match (← Run.state).cursor.transaction with
  | none => Run.fail (.unsetCursor "log entry filter" .transaction)
  | some transaction => visitEach event.name visit (matching event emitters transaction)

/-- Visits the log entries of the transaction that belong to an event and come
from admitted emitters. -/
def run (event : EventDecl) (emitters : AddressSet) (body : Run σ Unit) : Run σ Unit :=
  visitMatching event emitters (visit event body)

end LogEntryFilter

end ChainExtract
