import ArrayScript.Code.CodeModule
import ArrayScript.Machine.Memory

/-!
Running code.

A run of code falls through, branches to a label outside, returns from the
function, or ends in a trap. `stuck` is for code that asks for operands or
variables that are not there, which validated code never does.

Two bounds are explicit. `depth` is how many calls may still be nested: a call
that would exceed it is a trap like any other. `fuel` is how many rounds of loops
and calls may still be made along one path; a run that needs more of them has no
answer, which is told apart from all answers. Straight code uses no fuel.
-/

namespace ArrayScript

/-- The ways a run can fail. -/
inductive Trap where
  | divideByZero
  | integerOverflow
  | outOfBounds
  | stackExhausted
  deriving DecidableEq, Inhabited, Repr

/-- The text of a trap. -/
def Trap.message : Trap → String
  | divideByZero => "integer divide by zero"
  | integerOverflow => "integer overflow"
  | outOfBounds => "out of bounds memory access"
  | stackExhausted => "call stack exhausted"

namespace Machine

/-- What code works on: operands, the top first, variables and memory. -/
structure State where
  stack : List Word
  slots : Array Word
  memory : Memory
  deriving Inhabited, Repr

/-- How a run of code ends. -/
inductive Outcome where
  /-- at its end -/
  | next (s : State)
  /-- at the label of an enclosing block -/
  | branch (depth : Nat) (s : State)
  /-- with the result of the function -/
  | returned (result : Word) (memory : Memory)
  /-- in a trap -/
  | trapped (trap : Trap) (memory : Memory)
  /-- at an instruction that does not apply -/
  | stuck
  /-- without an answer -/
  | outOfFuel
  deriving Inhabited, Repr

/-- How a call ends. -/
inductive CallOutcome where
  | value (result : Word) (memory : Memory)
  | trapped (trap : Trap) (memory : Memory)
  | stuck
  | outOfFuel
  deriving DecidableEq, Inhabited, Repr

/-! ### Plain operations -/

/-- A comparison's result as an integer. -/
def truth (b : Bool) : Int32 :=
  if b then 1 else 0

/-- An operation on integers. They wrap; quotients and remainders are truncated, with
a trap for a zero divisor and for the one quotient that does not fit. -/
def intOp (op : IntOp) (a b : Int32) : Except Trap Int32 :=
  match op with
  | .add => .ok (a + b)
  | .sub => .ok (a - b)
  | .mul => .ok (a * b)
  | .div =>
    if b = 0 then .error .divideByZero
    else if a = Int32.minValue ∧ b = -1 then .error .integerOverflow
    else .ok (a / b)
  | .rem => if b = 0 then .error .divideByZero else .ok (a % b)
  | .lt => .ok (truth (a < b))
  | .le => .ok (truth (a ≤ b))
  | .gt => .ok (truth (b < a))
  | .ge => .ok (truth (b ≤ a))
  | .eq => .ok (truth (a = b))
  | .ne => .ok (truth (a ≠ b))

/-- An operation on doubles. -/
def floatOp (op : FloatOp) (x y : Double) : Word :=
  match op with
  | .add => .f64 (x + y)
  | .sub => .f64 (x - y)
  | .mul => .f64 (x * y)
  | .div => .f64 (x / y)
  | .lt => .i32 (truth (x.lt y))
  | .le => .i32 (truth (x.le y))
  | .gt => .i32 (truth (y.lt x))
  | .ge => .i32 (truth (y.le x))
  | .eq => .i32 (truth (x.eq y))
  | .ne => .i32 (truth (!x.eq y))

/-- The address an integer stands for. -/
def addressOf (n : Int32) : Nat :=
  n.toUInt32.toNat

/-- Runs an operation that does not call. -/
def plain (op : Op) : State → Outcome
  | ⟨stack, slots, memory⟩ =>
    match op, stack with
    | .i32Const n, stack => .next ⟨.i32 n :: stack, slots, memory⟩
    | .f64Const x, stack => .next ⟨.f64 x :: stack, slots, memory⟩
    | .int op, .i32 b :: .i32 a :: rest =>
      match intOp op a b with
      | .ok n => .next ⟨.i32 n :: rest, slots, memory⟩
      | .error trap => .trapped trap memory
    | .float op, .f64 y :: .f64 x :: rest => .next ⟨floatOp op x y :: rest, slots, memory⟩
    | .i32Eqz, .i32 n :: rest => .next ⟨.ofBool (n = 0) :: rest, slots, memory⟩
    | .f64Neg, .f64 x :: rest => .next ⟨.f64 (-x) :: rest, slots, memory⟩
    | .f64ConvertI32, .i32 n :: rest =>
      .next ⟨.f64 (Double.ofInt32 n) :: rest, slots, memory⟩
    | .i32TruncSatF64, .f64 x :: rest =>
      .next ⟨.i32 x.toInt32Saturating :: rest, slots, memory⟩
    | .localGet slot, stack =>
      match slots[slot]? with
      | some w => .next ⟨w :: stack, slots, memory⟩
      | none => .stuck
    | .localSet slot, w :: rest =>
      if slot < slots.size then .next ⟨rest, slots.setIfInBounds slot w, memory⟩
      else .stuck
    | .localTee slot, w :: rest =>
      if slot < slots.size then .next ⟨w :: rest, slots.setIfInBounds slot w, memory⟩
      else .stuck
    | .load t, .i32 a :: rest =>
      match memory.load? t (addressOf a) with
      | some w => .next ⟨w :: rest, slots, memory⟩
      | none => .trapped .outOfBounds memory
    | .store t, w :: .i32 a :: rest =>
      if w.type = t then
        if memory.holds (addressOf a) t.width then
          .next ⟨rest, slots, memory.store (addressOf a) w⟩
        else .trapped .outOfBounds memory
      else .stuck
    | .select, .i32 c :: b :: a :: rest =>
      .next ⟨(if c = 0 then b else a) :: rest, slots, memory⟩
    | .drop, _ :: rest => .next ⟨rest, slots, memory⟩
    | .ret, w :: _ => .returned w memory
    | .br depth, stack => .branch depth ⟨stack, slots, memory⟩
    | .brIf depth, .i32 c :: rest =>
      if c = 0 then .next ⟨rest, slots, memory⟩ else .branch depth ⟨rest, slots, memory⟩
    | _, _ => .stuck

/-! ### Blocks and calls -/

/-- Leaves a block: the operands from before it are there again, and a branch to its
label is done. -/
def leave (stack : List Word) : Outcome → Outcome
  | .next ⟨_, slots, memory⟩ | .branch 0 ⟨_, slots, memory⟩ =>
    .next ⟨stack, slots, memory⟩
  | .branch (depth + 1) s => .branch depth s
  | outcome => outcome

/-- What the run of a function's body means for its caller. -/
def finish : Outcome → CallOutcome
  | .next ⟨w :: _, _, memory⟩ | .branch 0 ⟨w :: _, _, memory⟩ | .returned w memory =>
    .value w memory
  | .trapped trap memory => .trapped trap memory
  | .next ⟨[], _, _⟩ | .branch _ _ | .stuck => .stuck
  | .outOfFuel => .outOfFuel

/-- Goes on after a call, with its result on the given operands. -/
def resume (stack : List Word) (slots : Array Word) : CallOutcome → Outcome
  | .value w memory => .next ⟨w :: stack, slots, memory⟩
  | .trapped trap memory => .trapped trap memory
  | .stuck => .stuck
  | .outOfFuel => .outOfFuel

/-- The variables of a function when it is entered: its arguments, then zeros. -/
def entryVariables (f : CompiledFunction) (arguments : List Word) : Array Word :=
  (arguments ++ f.locals.map Word.zero).toArray

mutual

/-- Runs instructions in order. -/
def exec (m : CodeModule) (fuel depth : Nat) (code : Code) (s : State) : Outcome :=
  match code with
  | [] => .next s
  | i :: rest =>
    match instr m fuel depth i s with
    | .next s => exec m fuel depth rest s
    | outcome => outcome
termination_by (fuel, sizeOf code)

/-- Runs one instruction. A new round of a loop and a call use up fuel. -/
def instr (m : CodeModule) (fuel depth : Nat) (i : Instr) (s : State) : Outcome :=
  match i, s with
  | .plain (.call index), ⟨stack, slots, memory⟩ =>
    match m.functions[index]? with
    | none => .stuck
    | some f =>
      match fuel with
      | 0 => .outOfFuel
      | fuel + 1 =>
        let arguments := (stack.take f.params.length).reverse
        if arguments.length = f.params.length then
          resume (stack.drop f.params.length) slots (invoke m fuel depth f arguments memory)
        else .stuck
  | .plain op, s => plain op s
  | .block body, ⟨stack, slots, memory⟩ =>
    leave stack (exec m fuel depth body ⟨[], slots, memory⟩)
  | .loop body, ⟨stack, slots, memory⟩ =>
    match exec m fuel depth body ⟨[], slots, memory⟩ with
    | .branch 0 ⟨_, slots, memory⟩ =>
      match fuel with
      | 0 => .outOfFuel
      | fuel + 1 => instr m fuel depth (.loop body) ⟨stack, slots, memory⟩
    | outcome => leave stack outcome
  | .choice consequent alternate, ⟨.i32 c :: stack, slots, memory⟩ =>
    if c ≠ 0 then leave stack (exec m fuel depth consequent ⟨[], slots, memory⟩)
    else
      match alternate with
      | some body => leave stack (exec m fuel depth body ⟨[], slots, memory⟩)
      | none => .next ⟨stack, slots, memory⟩
  | .choice _ _, _ => .stuck
termination_by (fuel, sizeOf i)

/-- Calls a function. -/
def invoke (m : CodeModule) (fuel depth : Nat) (f : CompiledFunction) (arguments : List Word)
    (memory : Memory) : CallOutcome :=
  match depth with
  | 0 => .trapped .stackExhausted memory
  | depth + 1 => finish (exec m fuel depth f.body ⟨[], entryVariables f arguments, memory⟩)
termination_by (fuel, sizeOf f.body + 1)

end

end Machine

end ArrayScript
