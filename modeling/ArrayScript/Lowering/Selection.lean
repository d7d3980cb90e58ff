import ArrayScript.Code.Instruction
import ArrayScript.CompileError

/-!
The code that does not depend on a function: constants, conversions, tests and the
choice of an instruction for an operator.
-/

namespace ArrayScript.Lowering

/-- Code that leaves one value on the stack, and the type of that value. -/
structure Operand where
  code : Code
  type : ValueType
  deriving Inhabited, Repr

/-- A sequence of plain operations. -/
def plain (ops : List Op) : Code :=
  ops.map .plain

/-- The zero of a type. -/
def zero (t : ValueType) : Op :=
  if t.isFloat then .f64Const Double.zero else .i32Const 0

/-- The one of a type. -/
def one (t : ValueType) : Op :=
  if t.isFloat then .f64Const Double.one else .i32Const 1

/-- Asks whether the double on top differs from zero. -/
def isNonzeroDouble : Code :=
  plain [.f64Const Double.zero, .float .ne]

/-- Converts the value on top. A double becomes a truth value by comparison with
zero and any other word by truncation; a word becomes a double by conversion;
words are not told apart. -/
def convert (source target : ValueType) : Code :=
  match source.isFloat, target with
  | true, .boolean => isNonzeroDouble
  | true, .float64 => []
  | true, _ => plain [.i32TruncSatF64]
  | false, .float64 => plain [.f64ConvertI32]
  | false, _ => []

/-- The value converted to a type. -/
def Operand.as (x : Operand) (t : ValueType) : Code :=
  x.code ++ convert x.type t

/-- A word that is zero exactly if the value is. -/
def Operand.condition (x : Operand) : Code :=
  if x.type.isFloat then x.code ++ isNonzeroDouble else x.code

/-- The word `0` if the value is zero and `1` otherwise; truth values already are
that. -/
def Operand.truth (x : Operand) : Code :=
  match x.type with
  | .boolean => x.code
  | .float64 => x.code ++ isNonzeroDouble
  | _ => x.code ++ plain [.i32Const 0, .int .ne]

/-- The instruction of a comparison. -/
def comparison (op : BinaryOp) (float : Bool) : Op :=
  match op, float with
  | .lt, false => .int .lt
  | .le, false => .int .le
  | .gt, false => .int .gt
  | .ge, false => .int .ge
  | .eq, false => .int .eq
  | _, false => .int .ne
  | .lt, true => .float .lt
  | .le, true => .float .le
  | .gt, true => .float .gt
  | .ge, true => .float .ge
  | .eq, true => .float .eq
  | _, true => .float .ne

/-- The instruction of an arithmetic operator, if there is one: powers have none, and
neither have remainders of doubles. -/
def arithmetic (op : BinaryOp) (float : Bool) : Except CompileError Op :=
  match op, float with
  | .add, false => .ok (.int .add)
  | .sub, false => .ok (.int .sub)
  | .mul, false => .ok (.int .mul)
  | .div, false => .ok (.int .div)
  | .rem, false => .ok (.int .rem)
  | .add, true => .ok (.float .add)
  | .sub, true => .ok (.float .sub)
  | .mul, true => .ok (.float .mul)
  | .div, true => .ok (.float .div)
  | .rem, true => .error (.unsupportedOperator op.symbol true)
  | _, _ => .error (.unsupportedOperator op.symbol false)

/-- The type both operands of an operator are converted to. -/
def operandType (float : Bool) : ValueType :=
  if float then .float64 else .int32

/-- The instruction of an operator and the type of its result. -/
def instruction (op : BinaryOp) (float : Bool) : Except CompileError (Op × ValueType) :=
  if op.isComparison then .ok (comparison op float, .boolean)
  else do return (← arithmetic op float, operandType float)

/-- The address of an element, with the type of the element. -/
def address (array position : Operand) : Operand where
  code := array.code ++ position.as .int32 ++
    plain [.i32Const (Int32.ofNat array.type.elementSize), .int .mul, .int .add]
  type := array.type.elementType

/-- The length of an array, which stands one element before the elements. -/
def length (array : Operand) : Operand where
  code := array.code ++
    plain [.i32Const (Int32.ofNat array.type.elementSize), .int .sub, .load .i32]
  type := .int32

end ArrayScript.Lowering
