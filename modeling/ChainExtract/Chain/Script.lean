import ChainExtract.Chain.Client
import ChainExtract.Keyed

/-!
# Scripted chains

A client that answers from a script instead of a node, so that a program can
be run against a chain whose every answer is known in advance, including
failures, reorganizations and the loss of the node.
-/

namespace ChainExtract

/-- An answer of a contract. -/
structure ScriptedContract where
  contract : Address
  member : String
  /-- The block at which the answer holds; without one it always holds. -/
  atBlock : Option Int
  answer : Except Failure (List Value)

/-- What is left of a script. -/
structure Script where
  /-- The blocks of the chain, under the numbers by which they are found. -/
  blocks : Keyed Int Block
  /-- The answers for the newest block; the last one is repeated. Without any,
  the highest block of the chain is the newest. -/
  heads : List (Except Failure Int)
  /-- Blocks that replace others when a number is asked for the first time. -/
  reorganizations : List (Int × List (Int × Block))
  /-- Failures that come before the first answer for a number. -/
  failures : List (Int × List Failure)
  contracts : List ScriptedContract
  /-- The number of requests that are still answered, if it is limited. -/
  remaining : Option Nat

namespace Script

/-- The failure of a request after the node has gone. -/
def nodeGone : Failure := ⟨"node gone", []⟩

/-- The highest number under which there is a block. -/
def highest (script : Script) : Except Failure Int :=
  match script.blocks.keys with
  | [] => .error ⟨"empty chain", []⟩
  | first :: rest => .ok (rest.foldl max first)

/-- Counts a request. The script answers it unless its node has gone. -/
def counted {α : Type} (answer : Script → Except Failure α × Script) (script : Script) :
    Except Failure α × Script :=
  match script.remaining with
  | some 0 => (.error nodeGone, script)
  | some (remaining + 1) => answer { script with remaining := some remaining }
  | none => answer script

/-- Answers for the newest block. -/
def head : Script → Except Failure Int × Script :=
  counted fun script =>
    match script.heads with
    | [] => (script.highest, script)
    | [last] => (last, script)
    | first :: rest => (first, { script with heads := rest })

/-- The chain after the reorganizations that the request of a number brings. -/
def reorganized (script : Script) (number : Int) : Script :=
  let (due, later) := script.reorganizations.partition (·.1 = number)
  let blocks := (due.flatMap (·.2)).foldl (fun blocks (key, block) => Keyed.set blocks key block)
    script.blocks
  { script with blocks, reorganizations := later }

/-- The next failure in store for a number, and those left after it. -/
def takeFailure (number : Int) : List (Int × List Failure) → Option (Failure × List (Int × List Failure))
  | [] => none
  | (place, failures) :: rest =>
    match decide (place = number), failures with
    | true, failure :: failures => some (failure, (place, failures) :: rest)
    | _, _ => (takeFailure number rest).map fun (failure, rest) => (failure, (place, failures) :: rest)

/-- Answers for a block. -/
def block (number : Int) : Script → Except Failure Block × Script :=
  counted fun script =>
    let script := script.reorganized number
    match takeFailure number script.failures with
    | some (failure, failures) => (.error failure, { script with failures })
    | none =>
      match script.blocks.get? number with
      | some block => (.ok block, script)
      | none => (.error ⟨s!"block {Numeral.decimal number} not found", []⟩, script)

/-- Answers for a member of a contract: the first answer that fits. -/
def member (query : MemberQuery) : Script → Except Failure (List Value) × Script :=
  counted fun script =>
    let fits (entry : ScriptedContract) : Bool :=
      entry.contract == query.contract && entry.member == query.member
        && entry.atBlock.all (· == query.atBlock)
    match script.contracts.find? fits with
    | some entry => (entry.answer, script)
    | none =>
      let contract := query.contract.checksumText
      (.error ⟨s!"no contract {contract} with member {query.member}", []⟩, script)

/-- The client that answers from a script. -/
def client : Client Script := ⟨head, block, member⟩

end Script

end ChainExtract
