import ArrayScript.Compilation
import ArrayScript.Machine.Run

/-!
What programs mean.

`Evaluation.invoke` runs a function on its syntax, without slots, stacks or code.
Every variable holds one value of the type that was found for it. Values are brought
to another type where they are bound, assigned, passed or returned, and where they
are used as subscripts. Expressions change memory only through calls, and variables
not at all.

As on the machine, `fuel` is how many rounds of loops and calls may be made along one
path. There is no bound on how deeply calls are nested.
-/

namespace ArrayScript

/-! ### Values -/

/-- A value of the source language. An array is known by the address of its first
element. -/
inductive Datum where
  | int (n : Int32)
  | double (x : Double)
  | boolean (n : Int32)
  | ints (base : Int32)
  | doubles (base : Int32)
  deriving DecidableEq, Inhabited, Repr

namespace Datum

/-- The type of a value. -/
def type : Datum → ValueType
  | int _ => .int32
  | double _ => .float64
  | boolean _ => .boolean
  | ints _ => .int32Array
  | doubles _ => .float64Array

/-- The word a value travels as. -/
def word : Datum → Word
  | int n | boolean n | ints n | doubles n => .i32 n
  | double x => .f64 x

/-- The integer of a value: a double is truncated, saturating. -/
def toInt32 : Datum → Int32
  | int n | boolean n | ints n | doubles n => n
  | double x => x.toInt32Saturating

/-- The double of a value. -/
def toDouble : Datum → Double
  | int n | boolean n | ints n | doubles n => Double.ofInt32 n
  | double x => x

/-- Whether a value differs from zero. -/
def isTrue : Datum → Bool
  | int n | boolean n | ints n | doubles n => n ≠ 0
  | double x => !x.eq Double.zero

/-- A truth value. -/
def ofBool (b : Bool) : Datum :=
  boolean (if b then 1 else 0)

/-- The value brought to a type. A double becomes a truth value by comparison with
zero; apart from that only doubles are told from other values. -/
def coerce (d : Datum) : ValueType → Datum
  | .int32 => int d.toInt32
  | .float64 => double d.toDouble
  | .boolean =>
    match d with
    | double _ => ofBool d.isTrue
    | _ => boolean d.toInt32
  | .int32Array => ints d.toInt32
  | .float64Array => doubles d.toInt32

/-- The zero of a type. -/
def zero : ValueType → Datum
  | .int32 => int 0
  | .float64 => double Double.zero
  | .boolean => boolean 0
  | .int32Array => ints 0
  | .float64Array => doubles 0

/-- The one of a number's type; what is no double is counted in integers. -/
def one (t : ValueType) : Datum :=
  if t.isFloat then double Double.one else int 1

/-- The value with its sign flipped, a double or else an integer. -/
def negate : Datum → Datum
  | double x => double (-x)
  | d => int (0 - d.toInt32)

/-- The value of a type that travels as a word. -/
def ofWord (t : ValueType) : Word → Datum
  | .i32 n => (int n).coerce t
  | .f64 x => (double x).coerce t

/-- An operand of a logical operator: truth values are taken as they are, any other
value becomes `0` or `1`. -/
def truth : Datum → Int32
  | boolean n => n
  | d => if d.isTrue then 1 else 0

end Datum

namespace Evaluation

/-- Why an evaluation has no result. -/
inductive Halt where
  | trap (trap : Trap) (memory : Memory)
  | outOfFuel
  /-- the syntax has no meaning -/
  | stuck
  deriving DecidableEq, Inhabited, Repr

/-- Computations on a memory. -/
abbrev Eval := StateT Memory (Except Halt)

/-- Ends in a trap; the memory stays as it is. -/
def trap {α : Type} (t : Trap) : Eval α :=
  fun memory => .error (.trap t memory)

/-! ### Operators -/

/-- An operator between integers. -/
def intOperation (op : BinaryOp) (a b : Int32) : Eval Datum :=
  match op with
  | .add => return .int (a + b)
  | .sub => return .int (a - b)
  | .mul => return .int (a * b)
  | .div =>
    if b = 0 then trap .divideByZero
    else if a = Int32.minValue ∧ b = -1 then trap .integerOverflow
    else return .int (a / b)
  | .rem => if b = 0 then trap .divideByZero else return .int (a % b)
  | .lt => return .ofBool (a < b)
  | .le => return .ofBool (a ≤ b)
  | .gt => return .ofBool (b < a)
  | .ge => return .ofBool (b ≤ a)
  | .eq => return .ofBool (a = b)
  | .ne => return .ofBool (a ≠ b)
  | .pow => throw .stuck

/-- An operator between doubles. -/
def doubleOperation (op : BinaryOp) (x y : Double) : Eval Datum :=
  match op with
  | .add => return .double (x + y)
  | .sub => return .double (x - y)
  | .mul => return .double (x * y)
  | .div => return .double (x / y)
  | .lt => return .ofBool (x.lt y)
  | .le => return .ofBool (x.le y)
  | .gt => return .ofBool (y.lt x)
  | .ge => return .ofBool (y.le x)
  | .eq => return .ofBool (x.eq y)
  | .ne => return .ofBool (!x.eq y)
  | .rem | .pow => throw .stuck

/-- An operator between two values: between doubles if one of them is a double, else
between integers. -/
def operate (op : BinaryOp) (x y : Datum) : Eval Datum :=
  if x.type.isFloat || y.type.isFloat then doubleOperation op x.toDouble y.toDouble
  else intOperation op x.toInt32 y.toInt32

/-- Both sides of a logical operator have a value. -/
def logical (op : LogicalOp) (x y : Datum) : Datum :=
  match op with
  | .and => .boolean (if x.truth = 0 then 0 else y.truth)
  | .or => .boolean (if x.truth = 0 then y.truth else 1)

/-! ### Memory -/

/-- The address of an element. -/
def elementAddress (array position : Datum) : Nat :=
  (array.toInt32 + position.toInt32 * Int32.ofNat array.type.elementSize).toUInt32.toNat

/-- The address of the length of an array. -/
def lengthAddress (array : Datum) : Nat :=
  (array.toInt32 - Int32.ofNat array.type.elementSize).toUInt32.toNat

/-- The value of a type that is stored at an address. -/
def load (t : ValueType) (address : Nat) : Eval Datum := fun memory =>
  match memory.load? t.wordType address with
  | some w => .ok (.ofWord t w, memory)
  | none => .error (.trap .outOfBounds memory)

/-- Stores a value at an address. -/
def store (address : Nat) (d : Datum) : Eval Unit := fun memory =>
  if memory.holds address d.type.wordType.width then .ok ((), memory.store address d.word)
  else .error (.trap .outOfBounds memory)

/-! ### Expressions -/

/-- The values of variables by name. -/
abbrev Variables := String → Datum

/-- Assigns a variable, which keeps its type. -/
def Variables.assign (vars : Variables) (name : String) (d : Datum) : Variables := fun other =>
  if other = name then d.coerce (vars name).type else vars other

section

variable (call : String → List Datum → Eval Datum)

mutual

/-- The value of an expression. -/
def expression (vars : Variables) : Expr → Eval Datum
  | .number _ x =>
    return if x.literalType.isFloat then .double x else .int x.toInt32Saturating
  | .boolean _ b => return .ofBool b
  | .identifier _ name => return vars name
  | .unary _ .not a => do
    let d ← expression vars a
    return .ofBool !d.isTrue
  | .unary _ .minus a => do
    let d ← expression vars a
    return d.negate
  | .unary _ .plus a => do
    let d ← expression vars a
    return d.coerce d.type.numeric
  | .binary _ op a b => do
    let x ← expression vars a
    let y ← expression vars b
    operate op x y
  | .logical _ op a b => do
    let x ← expression vars a
    let y ← expression vars b
    return logical op x y
  | .index _ object position => do
    let array ← expression vars object
    let i ← expression vars position
    load array.type.elementType (elementAddress array i)
  | .property _ object name => do
    if name = "length" then
      let array ← expression vars object
      load .int32 (lengthAddress array)
    else throw .stuck
  | .call _ callee inputs => do
    match callee.identifier? with
    | none => throw .stuck
    | some name =>
      let ds ← arguments vars inputs
      call name ds
  | .array _ _ | .assign _ _ _ _ | .update _ _ _ _ => throw .stuck

/-- The values of arguments, from left to right. -/
def arguments (vars : Variables) : List Expr → Eval (List Datum)
  | [] => return []
  | e :: rest => do
    let d ← expression vars e
    let ds ← arguments vars rest
    return d :: ds

end

/-! ### Assignments -/

/-- Assigns a variable or an element. The old value of an element is read before the
right side is evaluated. -/
def assign (vars : Variables) (op : AssignOp) (target value : Expr) : Eval Variables := do
  match target with
  | .identifier _ name =>
    let right ← expression call vars value
    match op.binaryOp? with
    | none => return vars.assign name right
    | some op =>
      let new ← operate op (vars name) right
      return vars.assign name new
  | .index _ object position =>
    let array ← expression call vars object
    let i ← expression call vars position
    let address := elementAddress array i
    let element := array.type.elementType
    match op.binaryOp? with
    | none =>
      let right ← expression call vars value
      store address (right.coerce element)
    | some op =>
      let old ← load element address
      let right ← expression call vars value
      let new ← operate op old right
      store address (new.coerce element)
    return vars
  | _ => throw .stuck

/-- Steps a variable or an element by one. -/
def update (vars : Variables) (op : UpdateOp) (target : Expr) : Eval Variables := do
  match target with
  | .identifier _ name =>
    let new ← operate op.binaryOp (vars name) (Datum.one (vars name).type)
    return vars.assign name new
  | .index _ object position =>
    let array ← expression call vars object
    let i ← expression call vars position
    let address := elementAddress array i
    let element := array.type.elementType
    let old ← load element address
    let new ← operate op.binaryOp old (Datum.one element)
    store address (new.coerce element)
    return vars
  | _ => throw .stuck

/-- An expression for what it does. -/
def effect (vars : Variables) : Expr → Eval Variables
  | .assign _ op target value => assign call vars op target value
  | .update _ op _ target => update call vars op target
  | e => do
    let _ ← expression call vars e
    return vars

/-- Declarators in order; those without initial value do nothing. -/
def declarators (vars : Variables) : List Declarator → Eval Variables
  | [] => return vars
  | d :: rest => do
    match d.target.identifier?, d.init with
    | none, _ => throw .stuck
    | some _, none => declarators vars rest
    | some name, some init =>
      let value ← expression call vars init
      declarators (vars.assign name value) rest

/-- Whether a loop goes on; one without test always does. -/
def goesOn (vars : Variables) : Option Expr → Eval Bool
  | none => return true
  | some test => do
    let d ← expression call vars test
    return d.isTrue

/-- The step at the end of a loop's body. -/
def step (vars : Variables) : Option Expr → Eval Variables
  | none => return vars
  | some e => effect call vars e

end

/-! ### Statements and calls -/

/-- How a statement ends: with new values of variables, or by leaving the function. -/
inductive Flow where
  | next (vars : Variables)
  | returned (value : Option Datum)

/-- A function with its signature and the types of its variables. -/
structure Procedure where
  declaration : FunctionDeclaration
  signature : Signature
  types : Table String ValueType

namespace Procedure

/-- The names of the parameters. -/
def parameters (g : Procedure) : List String :=
  g.declaration.params.filterMap (·.pattern.identifier?)

/-- The variables when the function is entered: parameters hold the arguments, each
brought to its type, and all others the zeros of their types. -/
def entry (g : Procedure) (ds : List Datum) : Variables := fun name =>
  let bound := Table.ofList (g.parameters.zip (ds.zipWith Datum.coerce g.signature.parameters))
  (bound.find? name).getD (Datum.zero ((g.types.find? name).getD .int32))

/-- The result of the function, which is zero where none is given. -/
def result (g : Procedure) : Flow → Datum
  | .returned (some d) => d.coerce g.signature.returnType
  | .returned none | .next _ => Datum.zero g.signature.returnType

end Procedure

mutual

/-- Runs a statement. -/
def statement (procedure? : String → Option Procedure) (fuel : Nat) (s : Statement)
    (vars : Variables) : Eval Flow :=
  match s with
  | .function _ _ _ _ => throw .stuck
  | .declare _ ds => do
    let vars ← declarators (call procedure? fuel) vars ds
    return .next vars
  | .expression e => do
    let vars ← effect (call procedure? fuel) vars e
    return .next vars
  | .ret none => return .returned none
  | .ret (some e) => do
    let d ← expression (call procedure? fuel) vars e
    return .returned (some d)
  | .conditional test consequent alternate => do
    let d ← expression (call procedure? fuel) vars test
    if d.isTrue then statement procedure? fuel consequent vars
    else optional procedure? fuel alternate vars
  | .whileLoop test body => rounds procedure? fuel (some test) none body vars
  | .forLoop init test update body => do
    match ← optional procedure? fuel init vars with
    | .next vars => rounds procedure? fuel test update body vars
    | .returned d => return .returned d
  | .block body => statements procedure? fuel body vars
  | .empty => return .next vars
termination_by (fuel, 2 * sizeOf s)

/-- Runs a statement if there is one. -/
def optional (procedure? : String → Option Procedure) (fuel : Nat) (s : Option Statement)
    (vars : Variables) : Eval Flow :=
  match s with
  | none => return .next vars
  | some s => statement procedure? fuel s vars
termination_by (fuel, 2 * sizeOf s)

/-- Runs statements in order. -/
def statements (procedure? : String → Option Procedure) (fuel : Nat) (ss : List Statement)
    (vars : Variables) : Eval Flow :=
  match ss with
  | [] => return .next vars
  | s :: rest => do
    match ← statement procedure? fuel s vars with
    | .next vars => statements procedure? fuel rest vars
    | .returned d => return .returned d
termination_by (fuel, 2 * sizeOf ss)

/-- The rounds of a loop. A further round uses up fuel. -/
def rounds (procedure? : String → Option Procedure) (fuel : Nat) (test update : Option Expr)
    (body : Statement) (vars : Variables) : Eval Flow := do
  if ← goesOn (call procedure? fuel) vars test then
    match ← statement procedure? fuel body vars with
    | .returned d => return .returned d
    | .next vars =>
      let vars ← step (call procedure? fuel) vars update
      match fuel with
      | 0 => throw .outOfFuel
      | fuel + 1 => rounds procedure? fuel test update body vars
  else return .next vars
termination_by (fuel, 2 * sizeOf body + 1)

/-- Calls a function by its name, which uses up fuel. -/
def call (procedure? : String → Option Procedure) (fuel : Nat) (name : String)
    (ds : List Datum) : Eval Datum :=
  match procedure? name with
  | none => throw .stuck
  | some g =>
    match fuel with
    | 0 => throw .outOfFuel
    | fuel + 1 => invoke procedure? fuel g ds
termination_by (fuel, 0)

/-- Runs a function on arguments. -/
def invoke (procedure? : String → Option Procedure) (fuel : Nat) (g : Procedure)
    (ds : List Datum) : Eval Datum := do
  let flow ← statements procedure? fuel g.declaration.body (g.entry ds)
  return g.result flow
termination_by (fuel, 2 * sizeOf g.declaration.body + 1)

end

end Evaluation

open Evaluation in
/-- The function of a program that has the given name, with its signature in the table
and the types that are found for its variables. -/
def Program.procedure? (p : Program) (table : SignatureTable) (name : String) :
    Option Procedure := do
  let f ← p.functions.find? (·.name = some name)
  let signature ← table.find? name
  let τ ← (Typing.ofFunction f signature table).toOption
  return ⟨f, signature, τ.variableTypes⟩

end ArrayScript
