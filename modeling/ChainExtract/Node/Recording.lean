import ChainExtract.Node.Client
import ChainExtract.Node.Wire

/-!
# Recorded nodes

A node that answers from recorded replies and keeps the requests it was sent,
so that a client can be run against a node whose every answer is known in
advance.
-/

namespace ChainExtract

inductive NodeRequest where
  | head
  | block (number : Nat)
  | receipt (hash : Word)
  | call (contract : Address) (data : Bytes) (atBlock : Nat)
deriving DecidableEq

namespace NodeRequest

/-- A number as requests write it. -/
def quantity (n : Nat) : JsonValue := .scalar (.string (Numeral.text 16 n "0x"))

def method : NodeRequest → String
  | head => "eth_blockNumber"
  | block _ => "eth_getBlockByNumber"
  | receipt _ => "eth_getTransactionReceipt"
  | call _ _ _ => "eth_call"

/-- The parameters of the method. A block is asked for with its transactions in
full. -/
def params : NodeRequest → JsonValue
  | head => .scalar .null
  | block number => .list [quantity number, .scalar (.bool true)]
  | receipt hash => .list [.scalar (.string hash.text)]
  | call contract data atBlock =>
    let transaction := .record [("data", .scalar (.string data.text)),
      ("to", .scalar (.string contract.text))]
    .list [transaction, quantity atBlock]

end NodeRequest

/-- A recorded reply to the requests of a method, or to those with certain
parameters only. -/
structure RecordedReply where
  method : String
  params : Option JsonValue
  reply : Except NodeFailure JsonValue

structure Recording where
  replies : List RecordedReply
  /-- The requests so far, the newest first. -/
  requests : List NodeRequest := []

namespace Recording

variable {α : Type}

/-- The failure of a request to which no reply was recorded. -/
def noReply : NodeFailure := .refused (-32601) "no canned response"

/-- The first reply that was recorded for a request. -/
def replyTo (recording : Recording) (request : NodeRequest) : Except NodeFailure JsonValue :=
  let fits (recorded : RecordedReply) : Bool :=
    recorded.method == request.method
      && recorded.params.all fun params => params.text == request.params.text
  match recording.replies.find? fits with
  | some recorded => recorded.reply
  | none => .error noReply

def answer (request : NodeRequest) (read : JsonValue → Option α) (recording : Recording) :
    Except NodeFailure α × Recording :=
  let result := match recording.replyTo request with
    | .error failure => .error failure
    | .ok json =>
      match read json with
      | some a => .ok a
      | none => .error .unreadable
  (result, { recording with requests := request :: recording.requests })

def nullable (read : JsonValue → Option α) : JsonValue → Option (Option α)
  | .scalar .null => some none
  | json => some <$> read json

def node : Node Recording where
  head := answer .head JsonValue.quantity?
  block number := answer (.block number) (nullable NodeBlock.ofJson?)
  receipt hash := answer (.receipt hash) (nullable NodeReceipt.ofJson?)
  call contract data number := answer (.call contract data number) JsonValue.data?

end Recording

end ChainExtract
