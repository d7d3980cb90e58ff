import ArrayScript.Code.Validation
import ArrayScript.Syntax.Statement

/-!
Why a program does not compile.
-/

namespace ArrayScript

/-- How a value that is not an array is used as one. -/
inductive ArrayAccess where
  | index
  | property
  deriving DecidableEq, Inhabited, Repr

/-- An access in messages. -/
def ArrayAccess.display : ArrayAccess → String
  | index => "index"
  | property => "read a property of"

/-- The ways compiling can fail. The first one met is reported. -/
inductive CompileError where
  /-- a statement outside functions, by its position -/
  | notAFunction (position : Nat)
  /-- a function without a name -/
  | unnamedFunction
  /-- a parameter that is not a plain name, by its position -/
  | patternParameter (function : String) (position : Nat)
  /-- a declarator that is not a plain name -/
  | patternDeclarator (function : String)
  /-- two parameters of one name -/
  | duplicateParameter (function name : String)
  /-- an operator that is not supported, or not supported on doubles -/
  | unsupportedOperator (symbol : String) (onDoubles : Bool)
  /-- a property other than the length -/
  | unknownProperty (name : String)
  /-- an assignment or update of something that cannot be stored to -/
  | invalidTarget
  /-- a call of something that is not a name -/
  | callThrough (kind : String)
  /-- an array literal -/
  | arrayLiteral
  /-- an assignment or update inside an expression -/
  | usedAsValue (kind : String)
  /-- a function inside a function -/
  | nestedFunction (name : String)
  /-- a call with too few or too many arguments -/
  | callArity (callee : String) (expected found : Nat)
  /-- a name that was neither declared nor given a type -/
  | unknownIdentifier (name : String)
  /-- a call of a function that is not in the module -/
  | unknownFunction (name : String)
  /-- a function without a signature -/
  | missingSignature (name : String)
  /-- a variable without a slot -/
  | unresolvedSlot (name : String)
  /-- a variable that is read before it has a type -/
  | untypedVariable (name : String)
  /-- a signature that does not fit its function -/
  | signatureArity (function : String) (expected found : Nat)
  /-- an expression without a type -/
  | missingType (id : ExprId)
  /-- a value that is not an array, used as one -/
  | notAnArray (access : ArrayAccess) (found : ValueType)
  /-- a module that the machine refuses -/
  | invalidModule (reason : ValidationError)
  deriving DecidableEq, Inhabited, Repr

/-- A name in messages. -/
def quoted (name : String) : String :=
  "`" ++ name ++ "`"

/-- The text of an error. -/
def CompileError.message : CompileError → String
  | notAFunction position =>
    "file can only contain function declarations (top-level statement " ++ toString position ++
      " is not one)"
  | unnamedFunction => "function expression has to have a name in order to be translated"
  | patternParameter function position =>
    "parameter " ++ toString position ++ " of function " ++ quoted function ++
      " is not a plain identifier"
  | patternDeclarator function =>
    "variable declarator in function " ++ quoted function ++ " contains a non-identifier"
  | duplicateParameter function name =>
    "duplicate parameter " ++ quoted name ++ " in function " ++ quoted function
  | unsupportedOperator symbol onDoubles =>
    "unsupported operator " ++ quoted symbol ++ (if onDoubles then " on double operands" else "")
  | unknownProperty name =>
    "unknown property " ++ quoted name ++ " (only `length` is supported)"
  | invalidTarget => "assignment target must be an identifier or a subscript"
  | callThrough kind => "unsupported expression: call through a " ++ kind
  | arrayLiteral => "unsupported expression: array literal"
  | usedAsValue kind => "unsupported expression: " ++ kind ++ " used as a value"
  | nestedFunction name =>
    "unsupported statement: nested function declaration " ++ quoted name
  | callArity callee expected found =>
    "function " ++ quoted callee ++ " takes " ++ toString expected ++ " arguments but " ++
      toString found ++ " were given"
  | unknownIdentifier name => "unknown identifier " ++ quoted name
  | unknownFunction name => "call to unknown function " ++ quoted name
  | missingSignature name => "couldn't find signature of function " ++ quoted name
  | unresolvedSlot name => "variable " ++ quoted name ++ " has no storage slot"
  | untypedVariable name => "type of variable " ++ quoted name ++ " could not be inferred"
  | signatureArity function expected found =>
    "signature of " ++ quoted function ++ " declares " ++ toString expected ++
      " parameters but the function has " ++ toString found
  | missingType id => "expression ExprId(" ++ toString id ++ ") has no inferred type"
  | notAnArray access found =>
    "cannot " ++ access.display ++ " a value of type " ++ found.display
  | invalidModule reason => "generated module failed validation: " ++ reason.message

end ArrayScript
