import ChainExtract.Error

/-!
# Failures of compilation

Why a plan does not become a program.
-/

namespace ChainExtract

/-- Why a plan does not become a program. -/
inductive CompileError where
  /-- A variable is read where no assignment to it is visible. -/
  | undefinedVariable (name : String)
  | unknownChainVariable (name : String)
  /-- A chain variable is read where its item is not being visited. -/
  | outOfScope (name : String) (scope : Scope)
  | misplaced (instruction required : String)
  | typeMismatch (context : String) (expected actual : ValueType)
  | invalidLiteral (text : String)
  /-- A name or a type that the library or the contract types refuse, or a
  folder that cannot be used. -/
  | refused (error : Error)
deriving DecidableEq, Repr

namespace CompileError

/-- The words of a failure with its causes. -/
def description : CompileError → String
  | undefinedVariable name => s!"variable '{name}' is used before it is assigned"
  | unknownChainVariable name => s!"unknown chain variable '{name}'"
  | outOfScope name scope =>
    s!"chain variable '{name}' is only available within a {scope.text} filter"
  | misplaced instruction required => s!"{instruction} is only allowed {required}"
  | typeMismatch context expected actual =>
    s!"{context}: expected {expected.text}, found {actual.text}"
  | invalidLiteral text => s!"invalid literal {text}"
  | refused error => error.description

end CompileError

end ChainExtract
