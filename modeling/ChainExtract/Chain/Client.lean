import ChainExtract.Chain.Block
import ChainExtract.Error
import ChainExtract.Value

/-!
# Clients of a chain

A client answers three kinds of request. Nothing is assumed about its
answers: each may depend on all requests before, and each may be a failure.
-/

namespace ChainExtract

/-- A request for public state of a contract as of a block. -/
structure MemberQuery where
  contract : Address
  atBlock : Int
  member : String
  inputs : List Value
  /-- The declared contract types of the values to be returned. -/
  outputTypes : List String
deriving DecidableEq

/-- A source of chain data with states of type `σ`. -/
structure Client (σ : Type) where
  head : σ → Except Failure Int × σ
  block : Int → σ → Except Failure Block × σ
  member : MemberQuery → σ → Except Failure (List Value) × σ

end ChainExtract
