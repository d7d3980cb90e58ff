import ArrayScript.Code.CodeModule
import ArrayScript.Lowering.Selection
import ArrayScript.Slots
import ArrayScript.Typing

/-!
From the syntax of a function to machine code.

An expression becomes code that leaves its value on the stack, a statement code
that leaves the stack as it was. Both operands of `&&` and `||` are always
evaluated; the left one waits in a scratch variable. So does the address of an
element that is read, changed and written back. Scratch variables are numbered
after all others and used again once they are free.
-/

namespace ArrayScript

/-- What is known about a function that is to be lowered. -/
structure LoweringContext where
  function : FunctionDeclaration
  signature : Signature
  table : SignatureTable
  /-- the slots of all variables -/
  mapping : VariableMapping
  /-- slots are counted from zero, so scratch variables can come after them -/
  firstSlot_eq : mapping.firstSlot = 0
  typing : Typing
  /-- the indices of the functions that can be called -/
  indices : Table String Nat

/-- The names of the variables in slot order. -/
def LoweringContext.names (cx : LoweringContext) : List String :=
  cx.mapping.names

namespace Lowering

/-- The scratch variables: how many there are, and which of them are free. -/
structure Scratch where
  count : Nat := 0
  free : List Nat := []
  deriving Inhabited, Repr

/-- Computations that use scratch variables, or fail. -/
abbrev Lower := StateT Scratch (Except CompileError)

variable (cx : LoweringContext)

/-- A scratch variable: the one freed last, or else a new one. -/
def acquire : Lower Nat := fun s =>
  match s.free with
  | slot :: rest => .ok (slot, { s with free := rest })
  | [] => .ok (cx.mapping.len + s.count, { s with count := s.count + 1 })

/-- Frees a scratch variable. -/
def release (slot : Nat) : Lower Unit :=
  modify fun s => { s with free := slot :: s.free }

/-- The slot of a variable. A name without slot and without type is unknown. -/
def slot (name : String) : Except CompileError Nat :=
  if cx.mapping.contains name ∨ cx.typing.variableTypes.contains name then
    cx.mapping.slot name
  else .error (.unknownIdentifier name)

/-! ### Expressions -/

/-- An operator between an operand and one that is yet to be lowered, of which only
the type is known. -/
def combine (op : BinaryOp) (left : Operand) (rightType : ValueType) (lowerRight : Lower Operand) :
    Lower Operand := do
  let float := left.type.isFloat || rightType.isFloat
  let (instruction, result) ← instruction op float
  let right ← lowerRight
  return ⟨left.as (operandType float) ++ right.as (operandType float) ++ plain [instruction],
    result⟩

mutual

/-- The value of an expression. -/
def expression : Expr → Lower Operand
  | .number id x => do
    let type ← cx.typing.expressionType id
    let constant : Op := if type.isFloat then .f64Const x else .i32Const x.toInt32Saturating
    return ⟨plain [constant], type⟩
  | .boolean _ b => return ⟨plain [.i32Const (if b then 1 else 0)], .boolean⟩
  | .identifier id name => do
    let slot ← slot cx name
    let type ← cx.typing.expressionType id
    return ⟨plain [.localGet slot], type⟩
  | .unary _ .not a => do
    let operand ← expression a
    return ⟨operand.condition ++ plain [.i32Eqz], .boolean⟩
  | .unary _ .minus a => do
    if (← cx.typing.expressionType a.id).isFloat then
      let operand ← expression a
      return ⟨operand.code ++ plain [.f64Neg], .float64⟩
    else
      let operand ← expression a
      return ⟨plain [.i32Const 0] ++ operand.as .int32 ++ plain [.int .sub], .int32⟩
  | .unary _ .plus a => do
    let operand ← expression a
    return ⟨operand.as operand.type.numeric, operand.type.numeric⟩
  | .binary _ op a b => do
    let left ← expression a
    let rightType ← cx.typing.expressionType b.id
    combine op left rightType (expression b)
  | .logical _ op a b => do
    let left ← expression a
    let scratch ← acquire cx
    let right ← expression b
    release scratch
    let choices :=
      match op with
      | .and => right.truth ++ plain [.i32Const 0]
      | .or => plain [.i32Const 1] ++ right.truth
    return ⟨left.truth ++ plain [.localSet scratch] ++ choices ++
      plain [.localGet scratch, .select], .boolean⟩
  | .index _ object position => do
    let array ← expression object
    let at' := address array (← expression position)
    return ⟨at'.code ++ plain [.load at'.type.wordType], at'.type⟩
  | .property _ object name => do
    if name = "length" then return length (← expression object)
    else throw (.unknownProperty name)
  | .call _ callee arguments => do
    match callee.identifier? with
    | none => throw (.callThrough callee.kindName)
    | some name =>
      let some index := cx.indices.find? name | throw (.unknownFunction name)
      let signature ← cx.table.require name
      if signature.arity ≠ arguments.length then
        throw (.callArity name signature.arity arguments.length)
      let code ← callArguments arguments signature.parameters
      return ⟨code ++ plain [.call index], signature.returnType⟩
  | .array _ _ => throw .arrayLiteral
  | e@(.assign _ _ _ _) | e@(.update _ _ _ _) => throw (.usedAsValue e.kindName)

/-- Arguments converted to the types of parameters. -/
def callArguments : List Expr → List ValueType → Lower Code
  | e :: rest, type :: types => do
    let argument ← expression e
    return argument.as type ++ (← callArguments rest types)
  | _, _ => return []

end

/-! ### Assignments -/

/-- Stores a value computed from the old one: to a variable, whose new value has its
type, or to an element through its address. -/
def assign (op : AssignOp) (target value : Expr) : Lower Code := do
  match target with
  | .identifier _ name =>
    let slot ← slot cx name
    let type ← cx.typing.variableType name
    let new ← match op.binaryOp? with
      | none => expression cx value
      | some op => do
        let rightType ← cx.typing.expressionType value.id
        combine op ⟨plain [.localGet slot], type⟩ rightType (expression cx value)
    return new.as type ++ plain [.localSet slot]
  | .index _ object position =>
    let array ← expression cx object
    let at' := address array (← expression cx position)
    let element := at'.type
    match op.binaryOp? with
    | none =>
      let new ← expression cx value
      return at'.code ++ new.as element ++ plain [.store element.wordType]
    | some op =>
      let scratch ← acquire cx
      let old : Operand := ⟨plain [.localGet scratch, .load element.wordType], element⟩
      let rightType ← cx.typing.expressionType value.id
      let new ← combine op old rightType (expression cx value)
      release scratch
      return at'.code ++ plain [.localTee scratch] ++ new.as element ++
        plain [.store element.wordType]
  | _ => throw .invalidTarget

/-- Steps a variable or an element by one. -/
def update (op : UpdateOp) (target : Expr) : Lower Code := do
  match target with
  | .identifier _ name =>
    let slot ← slot cx name
    let type ← cx.typing.variableType name
    let step ← arithmetic op.binaryOp type.isFloat
    return plain [.localGet slot, one type, step, .localSet slot]
  | .index _ object position =>
    let array ← expression cx object
    let at' := address array (← expression cx position)
    let element := at'.type
    let scratch ← acquire cx
    let step ← arithmetic op.binaryOp element.isFloat
    release scratch
    return at'.code ++ plain [.localTee scratch, .localGet scratch, .load element.wordType,
      one element, step, .store element.wordType]
  | _ => throw .invalidTarget

/-- An expression for what it does: assignments and updates store, and any other
value is dropped. -/
def effect : Expr → Lower Code
  | .assign _ op target value => assign cx op target value
  | .update _ op _ target => update cx op target
  | e => do
    let value ← expression cx e
    return value.code ++ plain [.drop]

/-! ### Statements -/

/-- Declarators in order; those without initial value do nothing. -/
def declarators : List Declarator → Lower Code
  | [] => return []
  | d :: rest => do
    match d.target.identifier?, d.init with
    | none, _ => throw (.patternDeclarator cx.function.displayName)
    | some _, none => declarators rest
    | some name, some init =>
      let slot ← slot cx name
      let type ← cx.typing.variableType name
      let value ← expression cx init
      return value.as type ++ plain [.localSet slot] ++ (← declarators rest)

/-- Leaves a loop unless its test holds; a loop without test is never left. -/
def loopExit : Option Expr → Lower Code
  | none => return []
  | some test => do
    let value ← expression cx test
    return value.condition ++ plain [.i32Eqz, .brIf 0]

/-- The step at the end of a loop's body. -/
def loopStep : Option Expr → Lower Code
  | none => return []
  | some e => effect cx e

/-- A loop whose body is inside a block: leaving the block ends the loop, and going to
the label around it starts the next round. -/
def roundAndRound (exit body step : Code) : Code :=
  [.loop [.block (exit ++ body ++ step ++ plain [.br 1])]]

mutual

/-- The code of a statement. -/
def statement : Statement → Lower Code
  | .function name _ _ _ => throw (.nestedFunction (displayName name))
  | .declare _ ds => declarators cx ds
  | .expression e => effect cx e
  | .ret none => return plain [zero cx.signature.returnType, .ret]
  | .ret (some e) => do
    let value ← expression cx e
    return value.as cx.signature.returnType ++ plain [.ret]
  | .conditional test consequent alternate => do
    let value ← expression cx test
    let consequent ← statement consequent
    let alternate ← alternative alternate
    return value.condition ++ [.choice consequent alternate]
  | .whileLoop test body => do
    let exit ← loopExit cx (some test)
    let body ← statement body
    return roundAndRound exit body []
  | .forLoop init test update body => do
    let first ← initial init
    let exit ← loopExit cx test
    let body ← statement body
    let step ← loopStep cx update
    return first ++ roundAndRound exit body step
  | .block body => statements body
  | .empty => return []

/-- The code of the second branch of a conditional, if there is one. -/
def alternative : Option Statement → Lower (Option Code)
  | none => return none
  | some s => do return some (← statement s)

/-- The code before a loop. -/
def initial : Option Statement → Lower Code
  | none => return []
  | some s => statement s

/-- The code of statements in order. -/
def statements : List Statement → Lower Code
  | [] => return []
  | s :: rest => do
    let code ← statement s
    return code ++ (← statements rest)

end

/-! ### Functions -/

/-- The code of a function's body. Running off its end gives back zero. -/
def body : Lower Code := do
  let code ← statements cx cx.function.body
  return code ++ plain [zero cx.signature.returnType]

/-- The machine types of the variables that are not parameters; one without a type is
a word. -/
def localTypes : List WordType :=
  (cx.names.drop cx.signature.arity).map fun name =>
    ((cx.typing.variableTypes.find? name).map ValueType.wordType).getD .i32

/-- The names of scratch variables. -/
def scratchNames (count : Nat) : List String :=
  (List.range count).map fun k => "tmp" ++ toString k

end Lowering

open Lowering in
/-- The machine code of a function. -/
def LoweringContext.lower (cx : LoweringContext) : Except CompileError CompiledFunction := do
  let (code, scratch) ← (body cx).run {}
  return {
    name := cx.function.displayName
    params := cx.signature.parameters.map ValueType.wordType
    result := cx.signature.returnType.wordType
    locals := localTypes cx ++ List.replicate scratch.count .i32
    localNames := cx.names ++ scratchNames scratch.count
    body := code }

end ArrayScript
