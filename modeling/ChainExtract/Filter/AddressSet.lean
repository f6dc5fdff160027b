import ChainExtract.Error
import ChainExtract.Value

/-!
# Sets of addresses

What a filter matches senders, recipients and emitters against. A set that is
absent or empty admits everything, also where there is no address.
-/

namespace ChainExtract

/-- A set of addresses to match against, given by its members. -/
structure AddressSet where
  members : List Address
deriving DecidableEq

namespace AddressSet

/-- The set that admits everything. -/
def any : AddressSet := ⟨[]⟩

/-- Whether the set admits everything. -/
def admitsAll (set : AddressSet) : Bool := set.members.isEmpty

/-- Whether the set admits an address, or the lack of one. -/
def admits (set : AddressSet) (address? : Option Address) : Bool :=
  set.admitsAll ||
    match address? with
    | some address => decide (address ∈ set.members)
    | none => false

/-- The addresses among values, if they are nothing else. -/
def addresses? : List Value → Option (List Address)
  | [] => some []
  | .addr address :: rest => (addresses? rest).map (address :: ·)
  | _ :: _ => none

/-- The set that an operand describes: nothing, an address, or a list of
addresses. -/
def ofValue (subject : String) (value? : Option Value) : Except Error AddressSet :=
  let invalid : Except Error AddressSet :=
    .error (.invalidParameters subject "expected an address or a list of addresses")
  match value? with
  | none => .ok any
  | some (.addr address) => .ok ⟨[address]⟩
  | some (.list items) =>
    match addresses? items with
    | some members => .ok ⟨members⟩
    | none => invalid
  | some _ => invalid

end AddressSet

end ChainExtract
