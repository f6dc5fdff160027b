import ChainExtract.Bytes.Hex
import ChainExtract.Error
import ChainExtract.Node.Reply

/-!
# Receipts and transactions

Receipts are joined to the transactions of a block by the hash of the
transaction, whatever their order. Each receipt is used once.
-/

namespace ChainExtract

namespace NodeReceipt

/-- The receipts of other transactions. -/
def without (hash : Word) (receipts : List NodeReceipt) : List NodeReceipt :=
  receipts.filter (·.transactionHash ≠ hash)

/-- The last receipt of a transaction. -/
def find? (hash : Word) (receipts : List NodeReceipt) : Option NodeReceipt :=
  receipts.reverse.find? (·.transactionHash == hash)

end NodeReceipt

namespace NodeBlock

/-- The transactions with their outcomes. A transaction without a receipt left
for it is a failure. -/
def joinAll : List NodeTransaction → List NodeReceipt → Except Failure (List Transaction)
  | [], _ => .ok []
  | transaction :: rest, receipts =>
    match NodeReceipt.find? transaction.hash receipts with
    | none => .error ⟨s!"missing receipt for transaction {transaction.hash.text}", []⟩
    | some receipt => do
      let further ← joinAll rest (NodeReceipt.without transaction.hash receipts)
      return transaction.joined receipt :: further

/-- The block that programs read. It has the transactions that are listed in
full. -/
def joined (block : NodeBlock) (receipts : List NodeReceipt) : Except Failure Block := do
  let transactions ← joinAll block.transactions.inFull receipts
  return {
    number := block.number, hash := block.hash, parentHash := block.parentHash,
    timestamp := block.timestamp, miner := block.miner, gasUsed := block.gasUsed,
    gasLimit := block.gasLimit, difficulty := block.difficulty, extraData := block.extraData,
    transactions }

end NodeBlock

end ChainExtract
