import ArrayScript.Table
import ArrayScript.ValueType

/-!
Signatures: the parameter types and the result type of a function, and tables of
them by name.
-/

namespace ArrayScript

/-- The types of a function's parameters and of its result. -/
structure Signature where
  parameters : List ValueType
  returnType : ValueType
  deriving DecidableEq, Inhabited, Repr

namespace Signature

/-- The number of parameters. -/
def arity (s : Signature) : Nat :=
  s.parameters.length

/-- Whether some parameter is an array. -/
def hasArrayParameter (s : Signature) : Bool :=
  s.parameters.any ValueType.isArray

/-- The signature as shown to users, as in `(int[], int) -> boolean`. -/
def display (s : Signature) : String :=
  "(" ++ String.intercalate ", " (s.parameters.map ValueType.display) ++ ") -> " ++
    s.returnType.display

end Signature

/-- Signatures by function name. -/
abbrev SignatureTable := Table String Signature

end ArrayScript
