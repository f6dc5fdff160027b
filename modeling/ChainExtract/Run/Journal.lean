import ChainExtract.Chain.Client
import ChainExtract.Export.Sink

/-!
# The journal of a run

What a run did that others can notice: its requests with their answers, the
blocks it visited or gave up again, the records it exported, the variables it
set and the failures it reported.
-/

namespace ChainExtract

inductive JournalEntry where
  /-- The number of the newest block was asked for. -/
  | head (answer : Except Failure Int)
  | block (number : Int) (answer : Except Failure Block)
  /-- Public state of a contract was asked for. -/
  | member (query : MemberQuery) (answer : Except Failure (List Value))
  /-- A remembered block turned out not to belong to the chain any more. -/
  | withdrawn (number : Int) (hash : Word)
  /-- A block was handed to the instructions. -/
  | delivered (block : Block)
  | exported (record : Record)
  | assigned (name : String) (value : Value)
  | reported (message : String) (error : Error)

end ChainExtract
