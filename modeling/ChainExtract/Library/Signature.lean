import ChainExtract.Value.Type

/-!
# Signatures

A method is known by its name and the types of its parameters; a call is
described in the same way by the types of its arguments.
-/

namespace ChainExtract

/-- The name of a method or call and the types of its parameters. -/
structure Signature where
  name : String
  parameters : List ValueType
deriving DecidableEq, Repr

namespace Signature

/-- Whether a method of the first signature may answer a call of the second:
the same name, as many parameters, and each parameter accepts its argument. -/
def accepts (method call : Signature) : Bool :=
  method.name == call.name
    && method.parameters.length == call.parameters.length
    && (method.parameters.zip call.parameters).all fun (expected, actual) =>
      expected.accepts actual

/-- The text of a signature: its name and, in parentheses, its types. -/
def text (signature : Signature) : String :=
  signature.name ++ "(" ++ ", ".intercalate (signature.parameters.map ValueType.text) ++ ")"

end Signature

end ChainExtract
