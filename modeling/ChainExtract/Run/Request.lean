import ChainExtract.Run.Basic

/-!
# Requests

Requests to the chain. Each one enters the journal with its answer, and none
is made once the connection has been closed.
-/

namespace ChainExtract.Run

variable {σ : Type}

/-- Makes a request: notes its answer and fails in the given words if the
chain did. -/
def request {α : Type} (ask : Client σ → σ → Except Failure α × σ)
    (entry : Except Failure α → JournalEntry) (words : String) : Run σ α := do
  if (← state).closed then fail .readerClosed
  let (answer, chain) := ask (← settings).client (← state).chain
  modify fun state => { state with chain }
  note (entry answer)
  match answer with
  | .ok result => return result
  | .error failure => fail (.ofFailure words failure)

def latest : Run σ Int :=
  request (·.head) .head "could not retrieve the latest block number"

def blockOf (number : Int) : Run σ Block :=
  request (·.block number) (.block number) s!"could not retrieve block {Numeral.decimal number}"

def query (query : MemberQuery) : Run σ (List Value) :=
  let contract := query.contract.checksumText
  let number := Numeral.decimal query.atBlock
  request (·.member query) (.member query)
    s!"could not query '{query.member}' of {contract} at block {number}"

/-- Asks for the newest block until it has reached a number, as often as
`patience` allows. -/
def waitFor (number : Int) : (patience : Nat) → Run σ Unit
  | 0 => giveUp
  | patience + 1 => do
    if (← latest) < number then waitFor number patience

/-- Closes the connection to the chain and points at nothing. -/
def close : Run σ Unit :=
  modify fun state => { state with closed := true, cursor := {} }

end ChainExtract.Run
