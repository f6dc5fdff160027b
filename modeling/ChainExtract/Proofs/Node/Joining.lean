import ChainExtract.Node.Receipts
import Mathlib.Data.List.Forall2
import Mathlib.Data.List.Nodup
import Mathlib.Tactic.Common

/-! # Joining receipts and transactions

A transaction that has taken its receipt leaves the receipts of all other transactions behind, so
each transaction finds its own receipt, wherever it stands among the others.
-/

namespace ChainExtract

namespace NodeReceipt

variable {hash other : Word} {receipts others unrelated : List NodeReceipt} {receipt : NodeReceipt}

theorem find?_eq_getLast? (hash : Word) (receipts : List NodeReceipt) :
    find? hash receipts = (receipts.filter (·.transactionHash == hash)).getLast? := by
  rw [find?, ← List.head?_filter, List.filter_reverse, List.head?_reverse]

theorem mem_of_find? (hfind : find? hash receipts = some receipt) :
    receipt ∈ receipts ∧ receipt.transactionHash = hash := by
  rw [find?_eq_getLast?] at hfind
  simpa using List.mem_of_getLast? hfind

theorem exists_find?_iff :
    (∃ receipt, find? hash receipts = some receipt) ↔
      ∃ receipt ∈ receipts, receipt.transactionHash = hash := by
  constructor
  · rintro ⟨receipt, hfind⟩
    exact ⟨receipt, mem_of_find? hfind⟩
  · rintro ⟨receipt, hmem, rfl⟩
    have hfilter : receipts.filter (·.transactionHash == receipt.transactionHash) ≠ [] :=
      List.ne_nil_of_mem (List.mem_filter.mpr ⟨hmem, beq_self_eq_true _⟩)
    rw [find?_eq_getLast?]
    exact ⟨_, List.getLast?_eq_some_getLast hfilter⟩

/-- Of the receipts that are left, each is found as before. -/
theorem find?_without (hash other : Word) (receipts : List NodeReceipt) :
    find? other (without hash receipts) = if other = hash then none else find? other receipts := by
  rw [find?_eq_getLast?, find?_eq_getLast?, without, List.filter_filter]
  by_cases hsame : other = hash
  · have hnone : ∀ receipt ∈ receipts, ¬ (receipt.transactionHash == other &&
        decide (receipt.transactionHash ≠ hash)) = true := by simp [hsame]
    rw [if_pos hsame, List.filter_eq_nil_iff.mpr hnone, List.getLast?_nil]
  · rw [if_neg hsame]
    congr 1
    refine List.filter_congr fun receipt _ => ?_
    by_cases hown : receipt.transactionHash = other <;> simp [hown, hsame]

/-- Neither the order of the receipts nor those of other transactions matter for finding one. -/
theorem find?_of_perm (hdistinct : (receipts.map (·.transactionHash)).Nodup)
    (hperm : others.Perm (receipts ++ unrelated))
    (hunrelated : ∀ receipt ∈ unrelated, receipt.transactionHash ≠ hash) :
    find? hash others = find? hash receipts := by
  have hnone : unrelated.filter (·.transactionHash == hash) = [] := by simpa using hunrelated
  have hfilter : (others.filter (·.transactionHash == hash)).Perm
      (receipts.filter (·.transactionHash == hash)) := by
    simpa [hnone] using hperm.filter (·.transactionHash == hash)
  have hlength : (receipts.filter (·.transactionHash == hash)).length ≤ 1 := by
    have hcount := List.nodup_iff_count_le_one.mp hdistinct hash
    rwa [List.count, List.countP_map, List.countP_eq_length_filter] at hcount
  rw [find?_eq_getLast?, find?_eq_getLast?]
  cases hown : receipts.filter (·.transactionHash == hash) with
  | nil =>
      rw [hown] at hfilter
      rw [hfilter.eq_nil]
  | cons receipt rest =>
      obtain rfl : rest = [] := by simpa [hown] using hlength
      rw [hown] at hfilter
      rw [hfilter.eq_singleton]

end NodeReceipt

/-- What programs read of a transaction: what the node tells of it, and the outcome that its
receipt tells. -/
structure Transaction.Combines (made : Transaction) (transaction : NodeTransaction)
    (receipt : NodeReceipt) : Prop where
  hash : made.hash = transaction.hash
  index : made.index = transaction.index.getD 0
  sender : made.sender = transaction.sender
  recipient : made.recipient = transaction.recipient
  value : made.value = transaction.value
  gas : made.gas = transaction.gas
  gasPrice : made.gasPrice = transaction.gasPrice.getD 0
  nonce : made.nonce = transaction.nonce
  input : made.input = transaction.input
  gasUsed : made.gasUsed = receipt.gasUsed
  success : made.success = receipt.success
  logs : made.logs = receipt.logs.map NodeLog.entry

theorem NodeTransaction.combines_joined (transaction : NodeTransaction) (receipt : NodeReceipt) :
    (transaction.joined receipt).Combines transaction receipt :=
  ⟨rfl, rfl, rfl, rfl, rfl, rfl, rfl, rfl, rfl, rfl, rfl, rfl⟩

namespace NodeBlock

open NodeReceipt (find? without find?_without)

variable {block : NodeBlock} {listed : List NodeTransaction} {receipts others : List NodeReceipt}

theorem joinAll_cons_eq_ok_iff {transaction : NodeTransaction} {made : List Transaction} :
    joinAll (transaction :: listed) receipts = .ok made ↔
      ∃ receipt further, find? transaction.hash receipts = some receipt ∧
        joinAll listed (without transaction.hash receipts) = .ok further ∧
        made = transaction.joined receipt :: further := by
  rw [joinAll]
  cases find? transaction.hash receipts with
  | none => simp
  | some receipt =>
      cases joinAll listed (without transaction.hash receipts) with
      | error failure => simp [bind, Except.bind]
      | ok further => simp [bind, Except.bind, pure, Except.pure, eq_comm]

/-- The transactions are joined if no two have the same hash, each with the receipt that is found
for it among all receipts. -/
theorem joinAll_eq_ok_iff {made : List Transaction} :
    joinAll listed receipts = .ok made ↔
      (listed.map (·.hash)).Nodup ∧
        List.Forall₂ (fun transaction joined => ∃ receipt,
          find? transaction.hash receipts = some receipt ∧ joined = transaction.joined receipt)
          listed made := by
  induction listed generalizing receipts made with
  | nil => simp [joinAll, eq_comm]
  | cons transaction listed ih =>
      have hnew : transaction.hash ∉ listed.map (·.hash) ↔
          ∀ other ∈ listed, other.hash ≠ transaction.hash := by simp [eq_comm]
      -- what is found for the others among the receipts left is what was found among all
      have hleft : (fun (other : NodeTransaction) (joined : Transaction) => ∃ receipt,
            find? other.hash (without transaction.hash receipts) = some receipt ∧
              joined = other.joined receipt) =
          fun other joined => other.hash ≠ transaction.hash ∧ ∃ receipt,
            find? other.hash receipts = some receipt ∧ joined = other.joined receipt := by
        funext other joined
        rw [find?_without]
        by_cases hsame : other.hash = transaction.hash <;> simp [hsame]
      simp only [joinAll_cons_eq_ok_iff, ih, hleft, List.forall₂_and_left, ← hnew, List.map_cons,
        List.nodup_cons, List.forall₂_cons_left_iff]
      grind

theorem joinAll_congr (hfind : ∀ transaction ∈ listed,
    find? transaction.hash others = find? transaction.hash receipts) :
    joinAll listed others = joinAll listed receipts := by
  induction listed generalizing others receipts with
  | nil => rfl
  | cons transaction listed ih =>
      obtain ⟨hfirst, hrest⟩ := List.forall_mem_cons.mp hfind
      have hleft : joinAll listed (without transaction.hash others) =
          joinAll listed (without transaction.hash receipts) := by
        refine ih fun other hother => ?_
        rw [find?_without, find?_without, hrest other hother]
      rw [joinAll, joinAll, hfirst, hleft]

theorem exists_forall₂_iff {related : NodeTransaction → Transaction → Prop} :
    (∃ made, List.Forall₂ related listed made) ↔
      ∀ transaction ∈ listed, ∃ joined, related transaction joined := by
  induction listed with
  | nil => simp
  | cons transaction listed ih =>
      rw [List.forall_mem_cons, ← ih]
      constructor
      · rintro ⟨_, hmade⟩
        obtain ⟨joined, further, hfirst, hrest, -⟩ := List.forall₂_cons_left_iff.mp hmade
        exact ⟨⟨joined, hfirst⟩, further, hrest⟩
      · rintro ⟨⟨joined, hfirst⟩, further, hrest⟩
        exact ⟨joined :: further, .cons hfirst hrest⟩

theorem joinAll_isOk_iff :
    (∃ made, joinAll listed receipts = .ok made) ↔
      (listed.map (·.hash)).Nodup ∧ ∀ transaction ∈ listed, ∃ receipt ∈ receipts,
        receipt.transactionHash = transaction.hash := by
  simp only [joinAll_eq_ok_iff, exists_and_left, exists_forall₂_iff, ← NodeReceipt.exists_find?_iff]
  simp only [exists_comm (α := Transaction), exists_and_left, exists_eq, and_true]

/-- The block that programs read, with these transactions. -/
def withTransactions (block : NodeBlock) (transactions : List Transaction) : Block where
  number := block.number
  hash := block.hash
  parentHash := block.parentHash
  timestamp := block.timestamp
  miner := block.miner
  gasUsed := block.gasUsed
  gasLimit := block.gasLimit
  difficulty := block.difficulty
  extraData := block.extraData
  transactions := transactions

theorem joined_eq (block : NodeBlock) (receipts : List NodeReceipt) :
    block.joined receipts =
      (joinAll block.transactions.inFull receipts).map block.withTransactions := by
  rw [joined]
  cases joinAll block.transactions.inFull receipts <;> rfl

theorem joined_eq_ok_iff {made : Block} :
    block.joined receipts = .ok made ↔ ∃ transactions,
      joinAll block.transactions.inFull receipts = .ok transactions ∧
        block.withTransactions transactions = made := by
  rw [joined_eq]
  cases joinAll block.transactions.inFull receipts <;> simp [Except.map]

theorem joined_isOk_iff (block : NodeBlock) (receipts : List NodeReceipt) :
    (∃ made, block.joined receipts = .ok made) ↔
      (block.transactions.inFull.map (·.hash)).Nodup ∧
        ∀ transaction ∈ block.transactions.inFull, ∃ receipt ∈ receipts,
          receipt.transactionHash = transaction.hash := by
  rw [← joinAll_isOk_iff]
  simp only [joined_eq_ok_iff]
  constructor
  · rintro ⟨_, transactions, hjoin, -⟩
    exact ⟨transactions, hjoin⟩
  · rintro ⟨transactions, hjoin⟩
    exact ⟨_, transactions, hjoin, rfl⟩

/-- The transactions of a joined block, each with the receipt that it has taken. -/
theorem combines_of_joined {made : Block} (hmade : block.joined receipts = .ok made) :
    List.Forall₂ (fun transaction joined => ∃ receipt ∈ receipts,
      receipt.transactionHash = transaction.hash ∧ joined.Combines transaction receipt)
      block.transactions.inFull made.transactions := by
  obtain ⟨transactions, hjoin, rfl⟩ := joined_eq_ok_iff.mp hmade
  refine (joinAll_eq_ok_iff.mp hjoin).2.imp ?_
  rintro transaction _ ⟨receipt, hfind, rfl⟩
  obtain ⟨hmem, hown⟩ := NodeReceipt.mem_of_find? hfind
  exact ⟨receipt, hmem, hown, transaction.combines_joined receipt⟩

/-- A block that lists its transactions in full is joined with receipts if and only if no two of
its transactions have the same hash and each of them has a receipt. Each transaction then has the
outcome that its own receipt tells, in the order of the block; and neither the order of the
receipts nor receipts of other transactions make a difference. -/
theorem joins_own_receipts (hlisted : block.transactions = .full listed)
    (hdistinct : (receipts.map (·.transactionHash)).Nodup) :
    ((∃ made, block.joined receipts = .ok made) ↔
        (listed.map (·.hash)).Nodup ∧ ∀ transaction ∈ listed, ∃ receipt ∈ receipts,
          receipt.transactionHash = transaction.hash) ∧
      (∀ made, block.joined receipts = .ok made →
        made = block.withTransactions made.transactions ∧
          List.Forall₂ (fun transaction joined => ∃ receipt ∈ receipts,
            receipt.transactionHash = transaction.hash ∧ joined.Combines transaction receipt)
            listed made.transactions) ∧
      ∀ others unrelated, others.Perm (receipts ++ unrelated) →
        (∀ receipt ∈ unrelated, ∀ transaction ∈ listed,
          receipt.transactionHash ≠ transaction.hash) →
        block.joined others = block.joined receipts := by
  have hinFull : block.transactions.inFull = listed := by rw [hlisted]; rfl
  refine ⟨?_, ?_, ?_⟩
  · rw [← hinFull]
    exact joined_isOk_iff block receipts
  · intro made hmade
    obtain ⟨transactions, _, rfl⟩ := joined_eq_ok_iff.mp hmade
    exact ⟨rfl, hinFull ▸ combines_of_joined hmade⟩
  · intro others unrelated hperm hunrelated
    have hfind : ∀ transaction ∈ listed,
        find? transaction.hash others = find? transaction.hash receipts :=
      fun transaction hmem => NodeReceipt.find?_of_perm hdistinct hperm
        fun receipt hreceipt => hunrelated receipt hreceipt transaction hmem
    rw [joined_eq, joined_eq, hinFull, joinAll_congr hfind]

/-! ### A payment and a creation -/

/-- A payment, and behind it the creation of a contract whose place is not settled. -/
def settledTransactions : List NodeTransaction :=
  [{ hash := .ofNat 32 17, index := some 0, sender := .ofNat 20 1, recipient := some (.ofNat 20 2),
     value := 5, gas := 21000, gasPrice := some 7, nonce := 3, input := [] },
   { hash := .ofNat 32 34, index := none, sender := .ofNat 20 1, recipient := none,
     value := 0, gas := 90000, gasPrice := none, nonce := 4, input := [96] }]

def settledBlock : NodeBlock where
  number := 12
  hash := .ofNat 32 12
  parentHash := .ofNat 32 11
  timestamp := 1000
  miner := .zero 20
  gasUsed := 101000
  gasLimit := 200000
  difficulty := 0
  extraData := []
  transactions := .full settledTransactions

/-- The receipt of the creation, which has failed, in front of the one of the payment. -/
def settlingReceipts : List NodeReceipt :=
  [{ transactionHash := .ofNat 32 34, success := false, gasUsed := 80000, logs := [] },
   { transactionHash := .ofNat 32 17, success := true, gasUsed := 21000,
     logs := [{ address := .ofNat 20 2, index := some 6, topics := [], data := [1], removed := false },
       { address := .ofNat 20 2, index := none, topics := [], data := [2], removed := false }] }]

/-- A receipt of a transaction in another block. -/
def strayReceipt : NodeReceipt where
  transactionHash := .ofNat 32 51
  success := true
  gasUsed := 1
  logs := []

theorem joins_own_receipts_settled :
    (settledBlock.transactions = .full settledTransactions ∧
      (settlingReceipts.map (·.transactionHash)).Nodup) ∧
    (∃ made, settledBlock.joined settlingReceipts = .ok made ∧
      made.transactions.map (fun transaction => (transaction.success, transaction.gasUsed,
        transaction.logs.map (·.data))) = [(true, 21000, [[1], [2]]), (false, 80000, [])]) ∧
    settledBlock.joined (settlingReceipts.reverse ++ [strayReceipt]) =
      settledBlock.joined settlingReceipts := by
  have hdistinct : (settlingReceipts.map (·.transactionHash)).Nodup := by decide
  have hlisted : settledBlock.transactions = .full settledTransactions := rfl
  obtain ⟨_, _, hsame⟩ := joins_own_receipts hlisted hdistinct
  refine ⟨⟨hlisted, hdistinct⟩, ⟨_, rfl, by decide⟩, ?_⟩
  exact hsame _ [strayReceipt] (settlingReceipts.reverse_perm.append_right _) (by decide)

end NodeBlock

end ChainExtract
