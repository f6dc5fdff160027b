/-!
# Scopes

The three depths at which chain data can be visited. They nest: inside a
transaction its block can be read, and inside a log entry both.
-/

namespace ChainExtract

/-- The kind of chain item that is being visited. -/
inductive Scope where
  | block
  | transaction
  | logEntry
deriving DecidableEq, Repr

namespace Scope

/-- How deep the scope lies. -/
def depth : Scope → Nat
  | block => 0
  | transaction => 1
  | logEntry => 2

/-- Whether items of the first scope can be read inside the second. -/
def visibleIn (scope inside : Scope) : Bool := scope.depth ≤ inside.depth

/-- The name of a scope. -/
def text : Scope → String
  | block => "block"
  | transaction => "transaction"
  | logEntry => "log entry"

end Scope

end ChainExtract
