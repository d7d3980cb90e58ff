import ArrayScript.CompileError
import ArrayScript.Signature.Derived

/-!
The types of variables and expressions.

A function is read once, from its first root to its last. Parameters have the
types of the signature; another variable has the type of the first value bound to
it, by a declarator or by a plain assignment, and keeps it. The value of an
assignment is read before its target.
-/

namespace ArrayScript

/-- The types found so far, of variables by name and of expressions by id. -/
structure Typing where
  variableTypes : Table String ValueType := {}
  expressionTypes : Table ExprId ValueType := {}
  deriving Inhabited, Repr

/-- The type of a numeric literal: an integer if its value is one of 32 bits. -/
def Double.literalType (x : Double) : ValueType :=
  match x.integer? with
  | some n => if -2147483648 ≤ n ∧ n ≤ 2147483647 then .int32 else .float64
  | none => .float64

/-- The type of an arithmetic result: a double if an operand is one. -/
def ValueType.arithmetic (a b : ValueType) : ValueType :=
  if a.isFloat || b.isFloat then .float64 else .int32

namespace Typing

/-- The type of an expression, which must be known. -/
def expressionType (t : Typing) (id : ExprId) : Except CompileError ValueType :=
  match t.expressionTypes.find? id with
  | some type => .ok type
  | none => .error (.missingType id)

/-- The type of a variable, which must be known. -/
def variableType (t : Typing) (name : String) : Except CompileError ValueType :=
  match t.variableTypes.find? name with
  | some type => .ok type
  | none => .error (.untypedVariable name)

/-- Binds a variable to a type unless it has one. -/
def bind (t : Typing) (name : String) (type : ValueType) : Typing :=
  if t.variableTypes.contains name then t
  else { t with variableTypes := t.variableTypes.insert name type }

/-- Records the type of an expression. -/
def record (t : Typing) (id : ExprId) (type : ValueType) : Typing :=
  { t with expressionTypes := t.expressionTypes.insert id type }

/-- Computations that find types, or fail. -/
abbrev Infer := StateT Typing (Except CompileError)

/-- Binds the name of a plainly assigned variable. -/
def bindTarget (op : AssignOp) (target : Expr) (type : ValueType) (t : Typing) : Typing :=
  match op, target.identifier? with
  | .assign, some name => t.bind name type
  | _, _ => t

/-- Records what is found as the type of the expression with the given id. -/
def recorded (id : ExprId) (find : Infer ValueType) : Infer ValueType := do
  let type ← find
  modify (·.record id type)
  return type

mutual

/-- The type of an expression. It is recorded, after the types of the parts; the name
of a called function has none. -/
def infer (table : SignatureTable) : Expr → Infer ValueType
  | .number id x => recorded id (return x.literalType)
  | .boolean id _ => recorded id (return .boolean)
  | .identifier id name => recorded id do (← get).variableType name
  | .array id elements => recorded id do
    inferList table elements
    return .int32Array
  | .unary id op a => recorded id do
    let type ← infer table a
    return if op = .not then .boolean else type.numeric
  | .binary id op a b => recorded id do
    if op = .pow then throw (.unsupportedOperator op.symbol false)
    let left ← infer table a
    let right ← infer table b
    return if op.isComparison then .boolean else left.arithmetic right
  | .logical id _ a b => recorded id do
    let _ ← infer table a
    let _ ← infer table b
    return .boolean
  | .update id _ _ a => recorded id (infer table a)
  | .assign id op target value => recorded id do
    if op = .remAssign then throw (.unsupportedOperator op.symbol false)
    let type ← infer table value
    modify (bindTarget op target type)
    let _ ← infer table target
    return type
  | .call id callee arguments => recorded id do
    match callee.identifier? with
    | none => throw (.callThrough callee.kindName)
    | some name =>
      let signature ← table.require name
      inferList table arguments
      return signature.returnType
  | .index id object position => recorded id do
    let type ← infer table object
    if !type.isArray then throw (.notAnArray .index type)
    let _ ← infer table position
    return type.elementType
  | .property id object name => recorded id do
    let type ← infer table object
    if !type.isArray then throw (.notAnArray .property type)
    if name ≠ "length" then throw (.unknownProperty name)
    return .int32

/-- Types expressions in order. -/
def inferList (table : SignatureTable) : List Expr → Infer Unit
  | [] => return
  | e :: rest => do
    let _ ← infer table e
    inferList table rest

end

/-- Types a root. The name of a declarator is bound to the type of its initial
value. -/
def inferRoot (function : String) (table : SignatureTable) : Root → Infer Unit
  | .expression e => do
    let _ ← infer table e
  | .declarator d => do
    match d.target.identifier?, d.init with
    | none, _ => throw (.patternDeclarator function)
    | some _, none => return
    | some name, some init =>
      let type ← infer table init
      modify (·.bind name type)

/-- The parameters with the types of a signature, the position of the first being
given. -/
def parameters (function : String) :
    (position : Nat) → List (Param × ValueType) → Except CompileError (List (String × ValueType))
  | _, [] => .ok []
  | position, (p, type) :: rest => do
    match p.pattern.identifier? with
    | none => throw (.patternParameter function position)
    | some name => return (name, type) :: (← parameters function (position + 1) rest)

/-- The types of the variables and expressions of a function with the given
signature, in a program with the given table of signatures. -/
def ofFunction (f : FunctionDeclaration) (signature : Signature) (table : SignatureTable) :
    Except CompileError Typing := do
  if signature.arity ≠ f.params.length then
    throw (.signatureArity f.displayName signature.arity f.params.length)
  let bound ← parameters f.displayName 0 (f.params.zip signature.parameters)
  let start : Typing := { variableTypes := Table.ofList bound }
  let (_, found) ← (f.roots.forM (inferRoot f.displayName table)).run start
  return found

end Typing

end ArrayScript
