import ChainExtract.Plan.Fault

/-!
# Fields of a part

A part with fixed fields is written as an object of its fields in any order,
or as a list of them in the order of their declaration. The fields are read
independently; of all faults the one that comes first in the document counts.
-/

namespace ChainExtract

/-- A result, or the first fault and its place in the document. -/
structure Ranked (α : Type) where
  result : Except (Nat × PlanFault) α

namespace Ranked

variable {α β γ : Type}

/-- Both results, or the first fault. -/
def both (f : α → β → γ) (x : Ranked α) (y : Ranked β) : Ranked γ :=
  match x.result, y.result with
  | .ok a, .ok b => ⟨.ok (f a b)⟩
  | .error fault, .ok _ | .ok _, .error fault => ⟨.error fault⟩
  | .error first, .error second => ⟨.error (if second.1 < first.1 then second else first)⟩

instance : Applicative Ranked where
  pure a := ⟨.ok a⟩
  seq f x := both (fun f a => f a) f (x ())

def ofReading (place : Nat) (reading : Reading α) : Ranked α := ⟨reading.mapError (place, ·)⟩

/-- The result without the place of the fault. -/
def reading (x : Ranked α) : Reading α := x.result.mapError (·.2)

end Ranked

/-- A field that a document gives. -/
structure GivenField where
  name : String
  step : PlanStep
  tree : JsonTree

/-- The fields that a document gives for a part, in their order. -/
structure Fields where
  given : List GivenField := []
  /-- Whether they are told apart by their order. -/
  positional : Bool
  /-- What is wrong behind the last of them. -/
  fault? : Option PlanFault := none

namespace Fields

variable {α : Type}

def has (fields : Fields) (name : String) : Bool := fields.given.any (·.name == name)

/-- Takes the members of an object for fields until one is unknown or given
again. -/
def ofMembers (names : List String) (fields : Fields) :
    List (String × JsonTree) → JsonEnding → Fields
  | [], ending => { fields with fault? := ending.fault?.map .ofJson }
  | (name, tree) :: members, ending =>
    if !names.contains name then { fields with fault? := some (.unfit [.member name]) }
    else if fields.has name then { fields with fault? := some (.unfit []) }
    else
      ofMembers names { fields with given := fields.given ++ [⟨name, .member name, tree⟩] }
        members ending

/-- Takes the items of a list for fields. There must not be more items than
fields, not even the beginning of one. -/
def ofItems (names : List String) (items : List JsonTree) (ending : JsonEnding) : Fields where
  given := (names.zip items).mapIdx fun index (name, tree) => ⟨name, .item index, tree⟩
  positional := true
  fault? :=
    if names.length < items.length then some .malformed
    else match ending with
      | .closed => none
      | .broken fault => some (.ofJson fault)
      | .dangling fault => some (if items.length = names.length then .malformed else .ofJson fault)

/-- The fields that a document gives for a part. -/
def ofTree (names : List String) : JsonTree → Reading Fields
  | .record members ending => .ok (ofMembers names { positional := false } members ending)
  | .list items ending => .ok (ofItems names items ending)
  | .misnamed _ => .error .malformed
  | tree => .error tree.misfit

/-- Reads a field; `absent` is taken where the field is not given, if there is
such a thing. -/
def get (fields : Fields) (name : String) (absent : Option α) (read : JsonTree → Reading α) :
    Ranked α :=
  match fields.given.zipIdx.find? (·.1.name == name), absent with
  | some (field, place), _ => .ofReading place (Reading.under field.step (read field.tree))
  | none, some a => pure a
  | none, none => .ofReading (fields.given.length + 1) (.error (.unfit []))

def required (fields : Fields) (name : String) (read : JsonTree → Reading α) : Ranked α :=
  fields.get name none read

def withDefault (fields : Fields) (name : String) (absent : α) (read : JsonTree → Reading α) :
    Ranked α :=
  fields.get name (some absent) read

/-- Reads a field that may be null. An object may leave it out altogether, a
list may not. -/
def optional (fields : Fields) (name : String) (read : JsonTree → Reading α) :
    Ranked (Option α) :=
  fields.get name (if fields.positional then none else some none) (Reading.nullable read)

def read (names : List String) (part : Fields → Ranked α) (tree : JsonTree) : Reading α := do
  let fields ← ofTree names tree
  let ending : Ranked Unit :=
    match fields.fault? with
    | none => pure ()
    | some fault => .ofReading fields.given.length (.error fault)
  (Ranked.both (fun a _ => a) (part fields) ending).reading

end Fields

end ChainExtract
