import ArrayScript.Lowering

/-!
Lowering as an emitter does it that writes one instruction after the other.

`Lowering` builds code in blocks, which cannot be badly nested, and returns the type of a
value together with its code. An emitter has neither. It appends to a flat listing; it
mirrors the operand stack with a stack of types, from which it reads the type of what was
emitted last; and it keeps the open blocks with the labels given to them, among which it
looks for the target of a branch. Each of these can go wrong, and is checked: what is then
found is a `Fault` of the emitter itself and not an error of the program.

The slots of variables are an arbitrary map here, whatever names there are.
-/

namespace ArrayScript.Flat

/-- Faults of an emitter. -/
inductive Fault where
  /-- a value is taken from an empty stack -/
  | underflow
  /-- the last value of an empty stack is looked at -/
  | emptyStack
  /-- a statement does not leave the stack at the depth it found -/
  | uneven (kind : String) (found expected : Nat)
  /-- a branch goes to a block that is not open -/
  | unknownLabel (label : String)
  /-- a function ends with values on the stack or with open blocks -/
  | unbalanced (values blocks : Nat)
  deriving DecidableEq, Repr

/-- The text of a fault. -/
def Fault.message : Fault → String
  | underflow => "expression stack underflow"
  | emptyStack => "expression stack is empty"
  | uneven kind found expected =>
    kind ++ " left the expression stack at depth " ++ toString found ++ " (expected " ++
      toString expected ++ ")"
  | unknownLabel label => "branch to unknown label " ++ label
  | unbalanced values blocks =>
    "unbalanced function body (" ++ toString values ++ " values, " ++ toString blocks ++
      " blocks left open)"

/-- Why nothing is emitted: the program is in error, or the emitter is. -/
inductive EmitError where
  | program (e : CompileError)
  | internal (fault : Fault)
  deriving DecidableEq, Repr

/-- The text of an error. -/
def EmitError.message : EmitError → String
  | program e => e.message
  | internal fault => "internal code generator error: " ++ fault.message

/-- What is known about a function, with a map of slots. -/
structure EmitterContext extends LoweringContext where
  slotOf : String → Option Nat

/-- The context in which names have the slots of their mapping. -/
def EmitterContext.ofLowering (cx : LoweringContext) : EmitterContext :=
  { cx with slotOf := cx.mapping.get? }

/-- The state of an emitter. -/
structure Emitter where
  marks : List Mark := []
  /-- the types of the values on the operand stack, the last one first -/
  stack : List ValueType := []
  /-- the labels of the open blocks, the innermost first; some have none -/
  control : List (Option String) := []
  nextLabel : Nat := 0
  scratch : Lowering.Scratch := {}

/-- Computations that emit, or fail. -/
abbrev Emit := StateT Emitter (Except EmitError)

/-- A function as it is emitted. -/
structure EmittedFunction where
  name : String
  params : List WordType
  result : WordType
  locals : List WordType
  localNames : List String
  marks : List Mark
  deriving DecidableEq

/-! ### Single steps -/

/-- A computation without a state, whose errors are those of the program. -/
def attempt {α : Type} (x : Except CompileError α) : Emit α :=
  liftM (x.mapError EmitError.program)

/-- Appends to the listing. -/
def emit (m : Mark) : Emit Unit :=
  modify fun s => { s with marks := s.marks ++ [m] }

/-- Mirrors that a value is put on the stack. -/
def push (t : ValueType) : Emit Unit :=
  modify fun s => { s with stack := t :: s.stack }

/-- Mirrors that a value is taken from the stack. -/
def pop : Emit ValueType := fun s =>
  match s.stack with
  | [] => .error (.internal .underflow)
  | t :: rest => .ok (t, { s with stack := rest })

/-- The type of the last value on the stack. -/
def top : Emit ValueType := fun s =>
  match s.stack with
  | [] => .error (.internal .emptyStack)
  | t :: _ => .ok (t, s)

/-- Takes values from the stack. -/
def popTimes : Nat → Emit Unit
  | 0 => return
  | n + 1 => do
    let _ ← pop
    popTimes n

/-- An operation that takes some values and gives one. -/
def emitOp (op : Op) (taken : Nat) (given : ValueType) : Emit Unit := do
  popTimes taken
  emit (.op op)
  push given

/-- Emits a constant word. -/
def pushWord (n : Int32) : Emit Unit := do
  emit (.op (.i32Const n))
  push .int32

/-- Emits the zero of a type. -/
def pushZero (t : ValueType) : Emit Unit := do
  emit (.op (Lowering.zero t))
  push t

/-- Emits the one of a type. -/
def pushOne (t : ValueType) : Emit Unit := do
  emit (.op (Lowering.one t))
  push t

/-- A label that was not given out before. -/
def freshLabel : Emit String := fun s =>
  .ok ("label_" ++ toString s.nextLabel, { s with nextLabel := s.nextLabel + 1 })

/-- How many open blocks a branch to a label leaves. -/
def depthOf (label : String) : Emit Nat := fun s =>
  match s.control.idxOf? (some label) with
  | some depth => .ok (depth, s)
  | none => .error (.internal (.unknownLabel label))

/-- Opens a block. -/
def openBlock (m : Mark) (label : Option String) : Emit Unit := do
  emit m
  modify fun s => { s with control := label :: s.control }

/-- Closes the innermost block. -/
def closeBlock : Emit Unit := do
  emit .endMark
  modify fun s => { s with control := s.control.tail }

variable (cx : EmitterContext)

/-- A scratch variable: the one freed last, or else a new one. -/
def acquire : Emit Nat := fun s =>
  match s.scratch.free with
  | slot :: rest => .ok (slot, { s with scratch := { s.scratch with free := rest } })
  | [] => .ok (cx.mapping.len + s.scratch.count,
      { s with scratch := { s.scratch with count := s.scratch.count + 1 } })

/-- Frees a scratch variable. -/
def release (slot : Nat) : Emit Unit :=
  modify fun s => { s with scratch := { s.scratch with free := slot :: s.scratch.free } }

/-- The slot of a variable. A name without slot and without type is unknown. -/
def slot (name : String) : Except CompileError Nat :=
  match cx.slotOf name with
  | some k => .ok k
  | none =>
    if cx.typing.variableTypes.contains name then .error (.unresolvedSlot name)
    else .error (.unknownIdentifier name)

/-! ### Parts of expressions -/

/-- Emits what brings a value from one type to another. -/
def convert (source target : ValueType) : Emit Unit :=
  match source.isFloat, target with
  | true, .boolean => do
    emit (.op (.f64Const Double.zero))
    emit (.op (.float .ne))
  | true, .float64 => return
  | true, _ => emit (.op .i32TruncSatF64)
  | false, .float64 => emit (.op .f64ConvertI32)
  | false, _ => return

/-- Converts the last value on the stack. -/
def coerceTop (target : ValueType) : Emit Unit := do
  let source ← pop
  convert source target
  push target

/-- Asks whether the double on the stack differs from zero. -/
def compareWithZero : Emit Unit := do
  emit (.op (.f64Const Double.zero))
  push .float64
  emitOp (.float .ne) 2 .boolean

/-- A value as a word that is zero exactly if the value is. -/
def condition (value : Emit ValueType) : Emit Unit := do
  let _ ← value
  if (← top).isFloat then compareWithZero

/-- A value as the word `0` or `1`. -/
def truth (value : Emit ValueType) : Emit Unit := do
  let _ ← value
  match ← top with
  | .boolean => return
  | .float64 => compareWithZero
  | _ => do
    pushWord 0
    emitOp (.int .ne) 2 .boolean

/-- The right operand of a logical operator, and the word in its place where it does not
matter: the operands of the choice that follows. -/
def choices (op : LogicalOp) (value : Emit ValueType) : Emit Unit :=
  match op with
  | .and => do
    truth value
    pushWord 0
  | .or => do
    pushWord 1
    truth value

/-- The address of an element. The type of the element is given back. -/
def address (object position : Emit ValueType) : Emit ValueType := do
  let array ← object
  let _ ← position
  coerceTop .int32
  pushWord (Int32.ofNat array.elementSize)
  emitOp (.int .mul) 2 .int32
  emitOp (.int .add) 2 .int32
  return array.elementType

/-- Reads an element. -/
def loadElement (element : ValueType) : Emit Unit :=
  emitOp (.load element.wordType) 1 element

/-- Writes an element. -/
def storeElement (element : ValueType) : Emit Unit := do
  let _ ← pop
  let _ ← pop
  emit (.op (.store element.wordType))

/-- An operator whose left operand is on the stack, and whose right one is yet to be
emitted. -/
def operator (op : BinaryOp) (right : Expr) (value : Emit ValueType) : Emit Unit := do
  let leftType ← top
  let rightType ← attempt (cx.typing.expressionType right.id)
  let float := leftType.isFloat || rightType.isFloat
  let (instruction, result) ← attempt (Lowering.instruction op float)
  coerceTop (Lowering.operandType float)
  let _ ← value
  coerceTop (Lowering.operandType float)
  emitOp instruction 2 result

/-! ### Expressions -/

mutual

/-- Emits an expression and gives back the type of its value. -/
def expression : Expr → Emit ValueType
  | .number id x => do
    let type ← attempt (cx.typing.expressionType id)
    emit (.op (if type.isFloat then .f64Const x else .i32Const x.toInt32Saturating))
    push type
    top
  | .boolean _ b => do
    emit (.op (.i32Const (if b then 1 else 0)))
    push .boolean
    top
  | .identifier id name => do
    let slot ← attempt (slot cx name)
    let type ← attempt (cx.typing.expressionType id)
    emit (.op (.localGet slot))
    push type
    top
  | .unary _ .not a => do
    condition (expression a)
    emitOp .i32Eqz 1 .boolean
    top
  | .unary _ .minus a => do
    if (← attempt (cx.typing.expressionType a.id)).isFloat then
      let _ ← expression a
      emitOp .f64Neg 1 .float64
      top
    else
      pushWord 0
      let _ ← expression a
      coerceTop .int32
      emitOp (.int .sub) 2 .int32
      top
  | .unary _ .plus a => do
    let type ← expression a
    coerceTop type.numeric
    top
  | .binary _ op a b => do
    let _ ← expression a
    operator cx op b (expression b)
    top
  | .logical _ op a b => do
    truth (expression a)
    let scratch ← acquire cx
    emit (.op (.localSet scratch))
    let _ ← pop
    choices op (expression b)
    emit (.op (.localGet scratch))
    push .boolean
    release scratch
    emitOp .select 3 .boolean
    top
  | .index _ object position => do
    let element ← address (expression object) (expression position)
    loadElement element
    top
  | .property _ object name => do
    if name = "length" then
      let array ← expression object
      pushWord (Int32.ofNat array.elementSize)
      emitOp (.int .sub) 2 .int32
      emitOp (.load .i32) 1 .int32
      top
    else attempt (.error (.unknownProperty name))
  | .call _ callee arguments => do
    match callee.identifier? with
    | none => attempt (.error (.callThrough callee.kindName))
    | some name =>
      match cx.indices.find? name with
      | none => attempt (.error (.unknownFunction name))
      | some index =>
        let signature ← attempt (cx.table.require name)
        if signature.arity ≠ arguments.length then
          attempt (.error (.callArity name signature.arity arguments.length))
        else
          callArguments arguments signature.parameters
          emitOp (.call index) arguments.length signature.returnType
          top
  | .array _ _ => attempt (.error .arrayLiteral)
  | e@(.assign _ _ _ _) | e@(.update _ _ _ _) => attempt (.error (.usedAsValue e.kindName))

/-- Emits arguments, each converted to the type of its parameter. -/
def callArguments : List Expr → List ValueType → Emit Unit
  | e :: rest, type :: types => do
    let _ ← expression e
    coerceTop type
    callArguments rest types
  | _, _ => return

end

/-! ### Assignments -/

/-- The value that a variable gets: the given one, or what an operator makes of it and the
old value. -/
def variableValue (slot : Nat) (type : ValueType) (op : Option BinaryOp) (value : Expr) :
    Emit Unit :=
  match op with
  | none => do
    let _ ← expression cx value
  | some op => do
    emit (.op (.localGet slot))
    push type
    operator cx op value (expression cx value)

/-- The value that an element gets whose address is on the stack. -/
def elementValue (element : ValueType) (op : Option BinaryOp) (value : Expr) : Emit Unit :=
  match op with
  | none => do
    let _ ← expression cx value
  | some op => do
    let scratch ← acquire cx
    emit (.op (.localTee scratch))
    emit (.op (.localGet scratch))
    push .int32
    loadElement element
    operator cx op value (expression cx value)
    release scratch

/-- Emits an assignment to a variable or an element. -/
def assign (op : AssignOp) (target value : Expr) : Emit Unit :=
  match target with
  | .identifier _ name => do
    let slot ← attempt (slot cx name)
    let type ← attempt (cx.typing.variableType name)
    variableValue cx slot type op.binaryOp? value
    coerceTop type
    emit (.op (.localSet slot))
    let _ ← pop
  | .index _ object position => do
    let element ← address (expression cx object) (expression cx position)
    elementValue cx element op.binaryOp? value
    coerceTop element
    storeElement element
  | _ => attempt (.error .invalidTarget)

/-- Emits a step of a variable or an element by one. -/
def update (op : UpdateOp) (target : Expr) : Emit Unit :=
  match target with
  | .identifier _ name => do
    let slot ← attempt (slot cx name)
    let type ← attempt (cx.typing.variableType name)
    emit (.op (.localGet slot))
    push type
    pushOne type
    let step ← attempt (Lowering.arithmetic op.binaryOp type.isFloat)
    emitOp step 2 type
    emit (.op (.localSet slot))
    let _ ← pop
  | .index _ object position => do
    let element ← address (expression cx object) (expression cx position)
    let scratch ← acquire cx
    emit (.op (.localTee scratch))
    emit (.op (.localGet scratch))
    push .int32
    loadElement element
    pushOne element
    let step ← attempt (Lowering.arithmetic op.binaryOp element.isFloat)
    emitOp step 2 element
    release scratch
    storeElement element
  | _ => attempt (.error .invalidTarget)

/-- Emits an expression for what it does. -/
def effect : Expr → Emit Unit
  | .assign _ op target value => assign cx op target value
  | .update _ op _ target => update cx op target
  | e => do
    let _ ← expression cx e
    emit (.op .drop)
    let _ ← pop

/-! ### Statements -/

/-- Emits declarators in order. -/
def declarators : List Declarator → Emit Unit
  | [] => return
  | d :: rest => do
    match d.target.identifier?, d.init with
    | none, _ => attempt (.error (.patternDeclarator cx.function.displayName))
    | some _, none => declarators rest
    | some name, some init =>
      let slot ← attempt (slot cx name)
      let type ← attempt (cx.typing.variableType name)
      let _ ← expression cx init
      coerceTop type
      emit (.op (.localSet slot))
      let _ ← pop
      declarators rest

/-- Emits the way out of a loop: unless the test holds, the block around it is left. -/
def loopExit (label : String) : Option Expr → Emit Unit
  | none => return
  | some test => do
    condition (expression cx test)
    emitOp .i32Eqz 1 .boolean
    emit (.op (.brIf (← depthOf label)))
    let _ ← pop

/-- Emits the step at the end of a loop's body. -/
def loopStep : Option Expr → Emit Unit
  | none => return
  | some e => effect cx e

/-- Emits a loop with a block inside it. The label of the block is found at its end, and
that of the loop at its beginning. -/
def loop (test : Option Expr) (body : Emit Unit) (step : Option Expr) : Emit Unit := do
  let finish ← freshLabel
  let begin' ← freshLabel
  openBlock .loop (some begin')
  openBlock .block (some finish)
  loopExit cx finish test
  body
  loopStep cx step
  emit (.op (.br (← depthOf begin')))
  closeBlock
  closeBlock

/-- Checks that a statement leaves the stack at the depth it found. -/
def level (kind : String) (x : Emit Unit) : Emit Unit := do
  let before := (← get).stack.length
  x
  let after := (← get).stack.length
  if after ≠ before then throw (.internal (.uneven kind after before))

mutual

/-- Emits a statement. -/
def statement : Statement → Emit Unit
  | s@(.function name _ _ _) => level s.kindName do
    attempt (.error (.nestedFunction (displayName name)))
  | s@(.declare _ ds) => level s.kindName do
    declarators cx ds
  | s@(.expression e) => level s.kindName do
    effect cx e
  | s@(.ret none) => level s.kindName do
    pushZero cx.signature.returnType
    emit (.op .ret)
    let _ ← pop
  | s@(.ret (some e)) => level s.kindName do
    let _ ← expression cx e
    coerceTop cx.signature.returnType
    emit (.op .ret)
    let _ ← pop
  | s@(.conditional test consequent alternate) => level s.kindName do
    condition (expression cx test)
    let _ ← pop
    openBlock .ifMark none
    statement consequent
    alternative alternate
    closeBlock
  | s@(.whileLoop test body) => level s.kindName do
    loop cx (some test) (statement body) none
  | s@(.forLoop init test update body) => level s.kindName do
    initial init
    loop cx test (statement body) update
  | s@(.block body) => level s.kindName do
    statements body
  | s@.empty => level s.kindName do
    return

/-- Emits the second branch of a conditional, if there is one. -/
def alternative : Option Statement → Emit Unit
  | none => return
  | some s => do
    emit .elseMark
    statement s

/-- Emits what is before a loop. -/
def initial : Option Statement → Emit Unit
  | none => return
  | some s => statement s

/-- Emits statements in order. -/
def statements : List Statement → Emit Unit
  | [] => return
  | s :: rest => do
    statement s
    statements rest

end

/-! ### Functions -/

/-- The function that was emitted, if nothing is left on the stack and no block open. -/
def finish : Emit EmittedFunction := fun s =>
  if s.stack ≠ [] ∨ s.control ≠ [] then
    .error (.internal (.unbalanced s.stack.length s.control.length))
  else
    .ok ({
      name := cx.function.displayName
      params := cx.signature.parameters.map ValueType.wordType
      result := cx.signature.returnType.wordType
      locals := Lowering.localTypes cx.toLoweringContext ++
        List.replicate s.scratch.count .i32
      localNames := cx.names ++ Lowering.scratchNames s.scratch.count
      marks := s.marks }, s)

/-- Emits a function. Running off its end gives back zero. -/
def emitFunction : Emit EmittedFunction := do
  statements cx cx.function.body
  pushZero cx.signature.returnType
  emit .endMark
  let _ ← pop
  finish cx

/-- The function that is emitted from nothing. -/
def generate : Except EmitError EmittedFunction :=
  (emitFunction cx).run' {}

end ArrayScript.Flat
