import ChainExtract.Node.Recording
import ChainExtract.Proofs.Node.Joining

/-! # Listed transactions

The client asks for the receipts of the transactions that a node lists in full, and the block that
it makes has these transactions in the order of the list. Transactions that are listed by their
hashes only are neither asked for nor missed.
-/

namespace ChainExtract

/-- No transaction is listed by nothing but its hash. -/
def NodeTransactions.IsFull (transactions : NodeTransactions) : Prop :=
  ∀ listed, transactions = .hashes listed → listed = []

theorem NodeTransactions.inFull_eq_listed_iff (transactions : NodeTransactions) :
    transactions.inFull.map (·.hash) = transactions.listedHashes ↔ transactions.IsFull := by
  cases transactions with
  | full transactions => simp [inFull, listedHashes, IsFull]
  | hashes listed => simp [inFull, listedHashes, IsFull, eq_comm]

/-- A joined block has the transactions that were listed in full. -/
theorem NodeBlock.map_hash_of_joined {block : NodeBlock} {receipts : List NodeReceipt}
    {made : Block} (hmade : block.joined receipts = .ok made) :
    made.transactions.map (·.hash) = block.transactions.inFull.map (·.hash) := by
  have hhashes : List.Forall₂ (fun transaction joined => transaction.hash = joined.hash)
      block.transactions.inFull made.transactions :=
    (combines_of_joined hmade).imp fun _ _ ⟨_, _, _, hcombines⟩ => hcombines.hash.symm
  have hsame : List.Forall₂ Eq (block.transactions.inFull.map (·.hash))
      (made.transactions.map (·.hash)) :=
    List.forall₂_map_left_iff.mpr (List.forall₂_map_right_iff.mpr hhashes)
  rw [List.forall₂_eq_eq_eq] at hsame
  exact hsame.symm

namespace Node

variable {σ : Type}

/-- What a node answers when a client asks for a block: the block, and then the receipts of the
transactions that it lists in full, one after the other. -/
structure Answers (node : Node σ) (number : Int) (state : σ) (reply : NodeBlock)
    (receipts : List NodeReceipt) : Prop where
  nonneg : 0 ≤ number
  fits : number < Nat.pow 2 64
  block : (node.block number.toNat state).1 = .ok (some reply)
  receipts : (node.receipts (reply.transactions.inFull.map (·.hash))
    (node.block number.toNat state).2).1 = .ok receipts

theorem blockAt_eq_ok_iff {node : Node σ} {number : Nat} {state : σ} {made : Block} :
    (node.blockAt number state).1 = .ok made ↔
      ∃ reply receipts, (node.block number state).1 = .ok (some reply) ∧
        (node.receipts (reply.transactions.inFull.map (·.hash))
          (node.block number state).2).1 = .ok receipts ∧
        reply.joined receipts = .ok made := by
  rw [blockAt]
  rcases hblock : node.block number state with ⟨failure | _ | reply, asked⟩
  · simp [known]
  · simp [known]
  · cases hreceipts : (node.receipts (reply.transactions.inFull.map (·.hash)) asked).1 with
    | error failure => simp [known, hreceipts, Except.bind]
    | ok receipts => simp [known, hreceipts, Except.bind]

theorem client_block_eq_ok_iff {node : Node σ} {number : Int} {state : σ} {made : Block} :
    (node.client.block number state).1 = .ok made ↔
      ∃ reply receipts, node.Answers number state reply receipts ∧
        reply.joined receipts = .ok made := by
  by_cases hrange : 0 ≤ number ∧ number < Nat.pow 2 64
  · have hnumber : blockNumber number = .ok number.toNat := if_pos hrange
    simp only [client, hnumber, blockAt_eq_ok_iff]
    constructor
    · rintro ⟨reply, receipts, hblock, hreceipts, hmade⟩
      exact ⟨reply, receipts, ⟨hrange.1, hrange.2, hblock, hreceipts⟩, hmade⟩
    · rintro ⟨reply, receipts, hanswers, hmade⟩
      exact ⟨reply, receipts, hanswers.block, hanswers.receipts, hmade⟩
  · have hnumber : blockNumber number = .error outOfRange := if_neg hrange
    simp only [client, hnumber]
    constructor
    · intro hmade
      cases hmade
    · rintro ⟨_, _, hanswers, -⟩
      exact absurd ⟨hanswers.nonneg, hanswers.fits⟩ hrange

/-- A client has a block if and only if the node answers all that is asked for it, no two
transactions in full have the same hash, and each has a receipt. The block then has the
transactions that were listed in full, in their order, so these are all transactions if and only
if none was listed by its hash only. -/
theorem keeps_listing_iff_isFull (node : Node σ) (number : Int) (state : σ) :
    ((∃ made, (node.client.block number state).1 = .ok made) ↔
        ∃ reply receipts, node.Answers number state reply receipts ∧
          (reply.transactions.inFull.map (·.hash)).Nodup ∧
          ∀ transaction ∈ reply.transactions.inFull, ∃ receipt ∈ receipts,
            receipt.transactionHash = transaction.hash) ∧
      ∀ made, (node.client.block number state).1 = .ok made →
        ∃ reply receipts, node.Answers number state reply receipts ∧
          made.transactions.map (·.hash) = reply.transactions.inFull.map (·.hash) ∧
          (made.transactions.map (·.hash) = reply.transactions.listedHashes ↔
            reply.transactions.IsFull) := by
  constructor
  · simp only [client_block_eq_ok_iff, ← NodeBlock.joined_isOk_iff]
    constructor
    · rintro ⟨made, reply, receipts, hanswers, hmade⟩
      exact ⟨reply, receipts, hanswers, made, hmade⟩
    · rintro ⟨reply, receipts, hanswers, made, hmade⟩
      exact ⟨made, reply, receipts, hanswers, hmade⟩
  · intro made hmade
    obtain ⟨reply, receipts, hanswers, hjoined⟩ := client_block_eq_ok_iff.mp hmade
    have hhashes := NodeBlock.map_hash_of_joined hjoined
    exact ⟨reply, receipts, hanswers, hhashes,
      hhashes ▸ reply.transactions.inFull_eq_listed_iff⟩

/-- The hash of a transaction as a node writes it. -/
def transactionHash (n : Nat) : JsonValue := .scalar (.string (FixedBytes.ofNat 32 n).text)

/-- A node that has recorded a block whose two transactions are listed by their hashes. -/
def hashListing : Recording where
  replies := [⟨"eth_getBlockByNumber", none, .ok (.record [("number", .scalar (.string "0x9")),
    ("transactions", .list [transactionHash 1, transactionHash 2])])⟩]

/-- The block is taken to have no transactions, and no receipt is asked for. -/
theorem listed_hashes_dropped :
    ∃ reply made, (Recording.node.block 9 hashListing).1 = .ok (some reply) ∧
      reply.transactions.listedHashes = [.ofNat 32 1, .ofNat 32 2] ∧
      (Recording.node.client.block 9 hashListing).1 = .ok made ∧
      made.transactions.map (·.hash) ≠ reply.transactions.listedHashes :=
  ⟨_, _, rfl, rfl, rfl, by decide⟩

end Node

end ChainExtract
