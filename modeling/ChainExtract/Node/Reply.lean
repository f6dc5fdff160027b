import ChainExtract.Chain.Block

/-!
# Replies of a node

What a node reports about blocks and transactions. A block lists its
transactions in full or by their hashes; what became of a transaction is told
by its receipt, which has to be asked for.
-/

namespace ChainExtract

structure NodeLog where
  address : Address
  /-- Its place in the block, as far as that is settled. -/
  index : Option Nat
  topics : List Word
  data : Bytes
  removed : Bool
deriving DecidableEq

structure NodeReceipt where
  transactionHash : Word
  success : Bool
  gasUsed : Nat
  logs : List NodeLog
deriving DecidableEq

/-- A transaction without its outcome. -/
structure NodeTransaction where
  hash : Word
  /-- Its place in the block, as far as that is settled. -/
  index : Option Nat
  sender : Address
  recipient : Option Address
  value : Nat
  gas : Nat
  gasPrice : Option Nat
  nonce : Nat
  input : Bytes
deriving DecidableEq

/-- How a block lists its transactions. -/
inductive NodeTransactions where
  | full (transactions : List NodeTransaction)
  | hashes (listed : List Word)
deriving DecidableEq

namespace NodeTransactions

/-- The transactions that are listed in full. -/
def inFull : NodeTransactions → List NodeTransaction
  | .full transactions => transactions
  | .hashes _ => []

def listedHashes : NodeTransactions → List Word
  | .full transactions => transactions.map (·.hash)
  | .hashes listed => listed

end NodeTransactions

structure NodeBlock where
  number : Nat
  hash : Word
  parentHash : Word
  timestamp : Nat
  miner : Address
  gasUsed : Nat
  gasLimit : Nat
  difficulty : Nat
  extraData : Bytes
  transactions : NodeTransactions
deriving DecidableEq

/-- The log entry that programs read. Without a place it has place zero. -/
def NodeLog.entry (log : NodeLog) : LogEntry where
  address := log.address
  index := log.index.getD 0
  topics := log.topics
  data := log.data
  removed := log.removed

/-- The transaction that programs read: what it is and what became of it. -/
def NodeTransaction.joined (transaction : NodeTransaction) (receipt : NodeReceipt) :
    Transaction where
  hash := transaction.hash
  index := transaction.index.getD 0
  sender := transaction.sender
  recipient := transaction.recipient
  value := transaction.value
  gas := transaction.gas
  gasPrice := transaction.gasPrice.getD 0
  gasUsed := receipt.gasUsed
  nonce := transaction.nonce
  input := transaction.input
  success := receipt.success
  logs := receipt.logs.map NodeLog.entry

end ChainExtract
