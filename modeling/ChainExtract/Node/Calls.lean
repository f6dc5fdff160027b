import ChainExtract.Abi.Conversion
import ChainExtract.Abi.Decoding
import ChainExtract.Abi.Encoding
import ChainExtract.Chain.Client
import ChainExtract.Hash.Keccak

/-!
# Calls of contract members

A call names its member by the first bytes of the hash of the member's
signature, with the types that its inputs are encoded as; the encoded inputs
follow. What comes back is decoded after the declared types.
-/

namespace ChainExtract.MemberQuery

/-- The canonical signature of the member that takes inputs of the types. -/
def signature (member : String) (types : List SolType) : String :=
  member ++ "(" ++ ",".intercalate (types.map SolType.name) ++ ")"

/-- The four bytes that select a member. -/
def selector (member : String) (types : List SolType) : Bytes :=
  (Keccak.hashText (signature member types)).bytes.take 4

/-- The data of the call. -/
def callData (query : MemberQuery) : Except Error Bytes := do
  let types := query.inputs.map Value.defaultType
  let inputs ← Value.toSolAll types query.inputs
  return selector query.member types ++ SolValue.encodeParameters inputs

/-- The declared types of what the member returns. -/
def returnTypes (query : MemberQuery) : Except Error (List SolType) :=
  query.outputTypes.mapM SolType.parse

/-- The values that the member returns. A decoding failure is its own cause. -/
def decodeResult (query : MemberQuery) (data : Bytes) : Except Failure (List Value) :=
  let context := s!"unexpected result of {query.member} on {query.contract.checksumText}"
  match query.returnTypes with
  | .error error => .error ⟨context, error.message :: error.causes⟩
  | .ok types =>
    match (SolType.tuple types).decodeSequence data with
    | .error error =>
      .error ⟨context, ["failed to decode the call result", error.message, error.message]⟩
    | .ok result => .ok (SolValue.toValues result.items)

end ChainExtract.MemberQuery
