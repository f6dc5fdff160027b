import ChainExtract.Address

/-!
# Blocks

Blocks, their transactions and the log entries of these, as programs read
them. Numbers that a node reports without a bound of its own are integers.
-/

namespace ChainExtract

/-- A log entry of a transaction. -/
structure LogEntry where
  /-- The contract that emitted the entry. -/
  address : Address
  index : Int
  topics : List Word
  data : Bytes
  removed : Bool
deriving DecidableEq

/-- A transaction together with its outcome. -/
structure Transaction where
  hash : Word
  index : Int
  sender : Address
  /-- Absent when the transaction creates a contract. -/
  recipient : Option Address
  value : Nat
  gas : Int
  gasPrice : Int
  gasUsed : Int
  nonce : Int
  input : Bytes
  success : Bool
  logs : List LogEntry
deriving DecidableEq

/-- A block together with its transactions. -/
structure Block where
  number : Int
  hash : Word
  parentHash : Word
  timestamp : Int
  miner : Address
  gasUsed : Int
  gasLimit : Int
  difficulty : Nat
  extraData : Bytes
  transactions : List Transaction
deriving DecidableEq

end ChainExtract
