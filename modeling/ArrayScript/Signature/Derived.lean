import ArrayScript.CompileError
import ArrayScript.Signature
import ArrayScript.Syntax.Visit

/-!
What functions tell of their signatures, and signatures of functions.

Signatures can be read off a program. A type written in the program is kept. A parameter
without one is an array of integers if some member expression takes a part of it, and
an integer otherwise; a result without one is an integer.

By its signature a function touches memory or not. Only arrays live in memory, and the
only way to an array is through a parameter. So a function touches memory if it takes a
part of something or mentions a parameter that is an array.
-/

namespace ArrayScript

/-- The signature of a function, which must be in the table. -/
def SignatureTable.require (table : SignatureTable) (name : String) :
    Except CompileError Signature :=
  match table.find? name with
  | some s => .ok s
  | none => .error (.missingSignature name)

/-- The names of which member expressions in the body of a function take a part. -/
def FunctionDeclaration.memberObjects (f : FunctionDeclaration) : List String :=
  f.expressions.filterMap fun e => e.memberObject?.bind Expr.identifier?

/-- The type of a parameter, given the names that are used as arrays. -/
def Param.derivedType (arrays : List String) (p : Param) : ValueType :=
  match p.declared, p.pattern.identifier? with
  | some t, _ => t
  | none, some name => if name ∈ arrays then .int32Array else .int32
  | none, none => .int32

/-- The signature a function itself suggests. -/
def FunctionDeclaration.derivedSignature (f : FunctionDeclaration) : Signature where
  parameters := f.params.map (Param.derivedType f.memberObjects)
  returnType := f.returnType.getD .int32

/-- The signatures of the named functions of a program; of a repeated name the last
one counts. -/
def Program.derivedSignatures (p : Program) : SignatureTable :=
  Table.ofList (p.functions.filterMap fun f => f.name.map fun name => (name, f.derivedSignature))

/-! ### Memory -/

/-- The names of the parameters that are arrays. -/
def FunctionDeclaration.arrayParameters (f : FunctionDeclaration) (s : Signature) : List String :=
  (f.params.zip s.parameters).filterMap fun (p, t) =>
    if t.isArray then p.pattern.identifier? else none

/-- Whether an expression itself takes a part of something or names an array. -/
def Expr.touchesMemory (arrays : List String) : Expr → Bool
  | .index _ _ _ | .property _ _ _ => true
  | .identifier _ name => name ∈ arrays
  | _ => false

/-- Whether a function touches memory. -/
def FunctionDeclaration.touchesMemory (f : FunctionDeclaration) (s : Signature) : Bool :=
  f.expressions.any (Expr.touchesMemory (f.arrayParameters s))

end ArrayScript
