import ChainExtract.Chain.Scope
import ChainExtract.Library.Signature
import ChainExtract.Text.Numeral

/-!
# Failures

What can go wrong while a program is compiled or run, and the words in which
each failure is told.
-/

namespace ChainExtract

/-- What a source outside the program said when it failed, and the causes it
gave, the nearest first. -/
structure Failure where
  reason : String
  causes : List String := []
deriving DecidableEq, Repr

/-- The texts of a failure, the outermost first. -/
def Failure.texts (failure : Failure) : List String := failure.reason :: failure.causes

def Failure.description (failure : Failure) : String := ": ".intercalate failure.texts

/-- A failure of compiling or running a program. -/
inductive Error where
  /-- A variable was read before it was written. -/
  | undefinedVariable (name : String)
  /-- No method accepts the call. -/
  | noSuchMethod (call : Signature)
  /-- Several methods accept the call. -/
  | ambiguousMethod (call : Signature) (candidates : List Signature)
  /-- The library would hold the same signature twice. -/
  | invalidLibrary (reason : String)
  /-- A method, filter or record was handed values that do not suit it. -/
  | invalidParameters (subject reason : String)
  /-- The chain did not answer a request. -/
  | query (request : String) (causes : List String)
  /-- A log entry does not hold what its event declares. -/
  | decode (event reason : String)
  /-- The settings of the run cannot be used. -/
  | configuration (reason : String)
  /-- A reorganization reached below every remembered block. -/
  | discontinuity (number : Int) (depth : Nat)
  /-- A chain item was read while none is being visited. -/
  | unsetCursor (subject : String) (scope : Scope)
  /-- An artifact could not be written. -/
  | unwritten (path cause : String)
  /-- The connection to the chain was used after it had been closed. -/
  | readerClosed
  /-- The run stops because of a failure that has already been reported. -/
  | aborted (cause : Error)
deriving DecidableEq, Repr

namespace Error

/-- A failed request to the chain, with what the chain said. -/
def ofFailure (request : String) (failure : Failure) : Error := query request failure.texts

/-- Whether the failure says that the run stops. -/
def isAborted : Error → Bool
  | aborted _ => true
  | _ => false

/-- The words of a failure, without its causes. -/
def message : Error → String
  | undefinedVariable name => s!"variable '{name}' is not defined"
  | noSuchMethod call => s!"no method matches the call {call.text}"
  | ambiguousMethod call candidates =>
    let names := ", ".intercalate (candidates.map Signature.text)
    s!"call {call.text} is ambiguous between {names}"
  | invalidLibrary reason => s!"invalid library state: {reason}"
  | invalidParameters subject reason => s!"invalid parameters for '{subject}': {reason}"
  | query request _ => s!"query failed: {request}"
  | decode event reason => s!"could not decode log entry '{event}': {reason}"
  | configuration reason => s!"configuration error: {reason}"
  | discontinuity number depth =>
    let block := Numeral.decimal number
    s!"chain discontinuity at block {block}: reorganization deeper than the {depth} known blocks"
  | unsetCursor subject scope => s!"'{subject}' was used outside of a {scope.text} scope"
  | unwritten path _ => s!"could not write '{path}'"
  | readerClosed => "the data reader is closed"
  | aborted cause => s!"execution aborted: {cause.message}"

/-- The causes below a failure, the nearest first. -/
def causes : Error → List String
  | query _ causes => causes
  | unwritten _ cause => [cause]
  | _ => []

/-- The words of a failure followed by those of its causes. -/
def description (error : Error) : String := ": ".intercalate (error.message :: error.causes)

end Error

end ChainExtract
