import ChainExtract.Node.Calls
import ChainExtract.Node.Receipts

/-!
# Clients of a node

A node answers four kinds of request, and may refuse each of them. The client
of a node asks for a block and then for the receipts of its transactions one
after the other, up to the first that is refused or missing.
-/

namespace ChainExtract

/-- Why a node gives no answer that can be used. -/
inductive NodeFailure where
  | refused (code : Int) (message : String)
  /-- The answer is not of the form that the request calls for. -/
  | unreadable
deriving DecidableEq, Repr

/-- The failure that is told of the request. -/
def NodeFailure.failure : NodeFailure → Failure
  | refused code message =>
    ⟨s!"server returned an error response: error code {Numeral.decimal code}: {message}", []⟩
  | unreadable => ⟨"deserialization error", []⟩

/-- A node with states of type `σ`. -/
structure Node (σ : Type) where
  head : σ → Except NodeFailure Nat × σ
  /-- The block of a number, unless the node does not know it. -/
  block : Nat → σ → Except NodeFailure (Option NodeBlock) × σ
  /-- The receipt of a transaction, unless the node does not know it. -/
  receipt : Word → σ → Except NodeFailure (Option NodeReceipt) × σ
  /-- What a contract returns for the data of a call, as of a block. -/
  call : Address → Bytes → Nat → σ → Except NodeFailure Bytes × σ

namespace Node

variable {σ α : Type}

/-- The failure of a number that no block can have. -/
def outOfRange : Failure :=
  ⟨"block number out of range", ["out of range conversion regarding big integer attempted"]⟩

/-- The number as a node takes it: of 64 bits. -/
def blockNumber (number : Int) : Except Failure Nat :=
  if 0 ≤ number ∧ number < Nat.pow 2 64 then .ok number.toNat else .error outOfRange

/-- What the node answered, where it must know something. -/
def known (missing : String) : Except NodeFailure (Option α) → Except Failure α
  | .error failure => .error failure.failure
  | .ok none => .error ⟨missing, []⟩
  | .ok (some answer) => .ok answer

def receipts (node : Node σ) : List Word → σ → Except Failure (List NodeReceipt) × σ
  | [], state => (.ok [], state)
  | hash :: hashes, state =>
    let (answer, state) := node.receipt hash state
    match known s!"receipt of transaction {hash.text} not found" answer with
    | .error failure => (.error failure, state)
    | .ok receipt =>
      let (further, state) := node.receipts hashes state
      (further.map (receipt :: ·), state)

/-- The block of a number with the outcomes of its transactions. -/
def blockAt (node : Node σ) (number : Nat) (state : σ) : Except Failure Block × σ :=
  let (answer, state) := node.block number state
  match known s!"block {Numeral.decimal number} not found" answer with
  | .error failure => (.error failure, state)
  | .ok block =>
    let (receipts, state) := node.receipts (block.transactions.inFull.map (·.hash)) state
    (receipts.bind block.joined, state)

def memberAt (node : Node σ) (query : MemberQuery) (number : Nat) (state : σ) :
    Except Failure (List Value) × σ :=
  match query.callData with
  | .error error => (.error ⟨error.message, error.causes⟩, state)
  | .ok data =>
    let (answer, state) := node.call query.contract data number state
    match answer with
    | .error failure => (.error failure.failure, state)
    | .ok result => (query.decodeResult result, state)

/-- The client of a node. -/
def client (node : Node σ) : Client σ where
  head state :=
    let (answer, state) := node.head state
    match answer with
    | .error failure => (.error failure.failure, state)
    | .ok number => (.ok number, state)
  block number state :=
    match blockNumber number with
    | .error failure => (.error failure, state)
    | .ok number => node.blockAt number state
  member query state :=
    match blockNumber query.atBlock with
    | .error failure => (.error failure, state)
    | .ok number => node.memberAt query number state

end Node

end ChainExtract
