import ArrayScript.Double
import ArrayScript.ValueType

/-!
Instructions of the stack machine.

An instruction is either a plain operation or a block with code inside it. Code
in this form cannot be badly nested. `Instr.listing` lays it out flat, with marks
where blocks begin and end, which is the form in which code is shown and stored.
-/

namespace ArrayScript

/-- Operations on two 32-bit integers, signed where it matters. -/
inductive IntOp where
  | add
  | sub
  | mul
  | div
  | rem
  | lt
  | le
  | gt
  | ge
  | eq
  | ne
  deriving DecidableEq, Inhabited, Repr

/-- Operations on two doubles. -/
inductive FloatOp where
  | add
  | sub
  | mul
  | div
  | lt
  | le
  | gt
  | ge
  | eq
  | ne
  deriving DecidableEq, Inhabited, Repr

/-- The type of an operation's result: comparisons of doubles give integers. -/
def FloatOp.result : FloatOp → WordType
  | add | sub | mul | div => .f64
  | lt | le | gt | ge | eq | ne => .i32

/-- Plain operations. -/
inductive Op where
  /-- pushes an integer -/
  | i32Const (n : Int32)
  /-- pushes a double -/
  | f64Const (x : Double)
  /-- combines two integers -/
  | int (op : IntOp)
  /-- combines two doubles -/
  | float (op : FloatOp)
  /-- turns an integer into `1` if it is zero and into `0` otherwise -/
  | i32Eqz
  /-- flips the sign of a double -/
  | f64Neg
  /-- turns an integer into a double -/
  | f64ConvertI32
  /-- truncates a double to an integer, saturating -/
  | i32TruncSatF64
  /-- pushes a local variable -/
  | localGet (slot : Nat)
  /-- pops into a local variable -/
  | localSet (slot : Nat)
  /-- copies the top of the stack into a local variable -/
  | localTee (slot : Nat)
  /-- replaces an address by the word stored there -/
  | load (type : WordType)
  /-- pops a word and an address and stores the word there -/
  | store (type : WordType)
  /-- calls the function of the given index -/
  | call (index : Nat)
  /-- pops a condition and two words and pushes the first of them if it is not zero -/
  | select
  /-- pops a word -/
  | drop
  /-- leaves the function with the word on top -/
  | ret
  /-- leaves the given number of blocks and goes to the label of the next -/
  | br (depth : Nat)
  /-- pops a condition and branches if it is not zero -/
  | brIf (depth : Nat)
  deriving DecidableEq, Inhabited, Repr

/-- Instructions. The label of a loop is at its beginning, that of other blocks at
their end; blocks take no operands and leave none. -/
inductive Instr where
  | plain (op : Op)
  | block (body : List Instr)
  | loop (body : List Instr)
  /-- pops a condition and runs one of two bodies, the second of which may be missing -/
  | choice (consequent : List Instr) (alternate : Option (List Instr))
  deriving Inhabited, Repr

/-- A sequence of instructions. -/
abbrev Code := List Instr

/-- An instruction in a flat listing. -/
inductive Mark where
  | op (op : Op)
  | block
  | loop
  | ifMark
  | elseMark
  | endMark
  deriving DecidableEq, Inhabited, Repr

namespace Instr

mutual

/-- The flat form of an instruction. -/
def listing : Instr → List Mark
  | plain op => [.op op]
  | block body => .block :: (listingList body ++ [.endMark])
  | loop body => .loop :: (listingList body ++ [.endMark])
  | choice consequent alternate =>
    .ifMark :: (listingList consequent ++ (listingElse alternate ++ [.endMark]))

/-- The flat form of the second body of a choice. -/
def listingElse : Option (List Instr) → List Mark
  | none => []
  | some body => .elseMark :: listingList body

/-- The flat form of a sequence of instructions. -/
def listingList : List Instr → List Mark
  | [] => []
  | i :: rest => listing i ++ listingList rest

end

end Instr

/-- The flat form of a function body, which ends with an end mark. -/
def Code.listing (body : Code) : List Mark :=
  Instr.listingList body ++ [.endMark]

/-! ### How instructions are shown -/

/-- The name of an operation on integers. -/
def IntOp.display : IntOp → String
  | add => "I32Add"
  | sub => "I32Sub"
  | mul => "I32Mul"
  | div => "I32DivS"
  | rem => "I32RemS"
  | lt => "I32LtS"
  | le => "I32LeS"
  | gt => "I32GtS"
  | ge => "I32GeS"
  | eq => "I32Eq"
  | ne => "I32Ne"

/-- The name of an operation on doubles. -/
def FloatOp.display : FloatOp → String
  | add => "F64Add"
  | sub => "F64Sub"
  | mul => "F64Mul"
  | div => "F64Div"
  | lt => "F64Lt"
  | le => "F64Le"
  | gt => "F64Gt"
  | ge => "F64Ge"
  | eq => "F64Eq"
  | ne => "F64Ne"

/-- The name of a machine type. -/
def WordType.display : WordType → String
  | i32 => "I32"
  | f64 => "F64"

/-- The binary logarithm of a type's width, to which addresses should be aligned. -/
def WordType.alignment : WordType → Nat
  | i32 => 2
  | f64 => 3

/-- The memory argument of loads and stores as shown. -/
def WordType.memoryArgument (t : WordType) : String :=
  "(MemArg \x7b offset: 0, align: " ++ toString t.alignment ++ ", memory_index: 0 \x7d)"

/-- A name with one argument. -/
def withArgument (name argument : String) : String :=
  name ++ "(" ++ argument ++ ")"

/-- A plain operation as shown. -/
def Op.display : Op → String
  | i32Const n => withArgument "I32Const" (toString n.toInt)
  | f64Const x => withArgument "F64Const" (withArgument "Ieee64" (toString x.bits.toNat))
  | int op => op.display
  | float op => op.display
  | i32Eqz => "I32Eqz"
  | f64Neg => "F64Neg"
  | f64ConvertI32 => "F64ConvertI32S"
  | i32TruncSatF64 => "I32TruncSatF64S"
  | localGet slot => withArgument "LocalGet" (toString slot)
  | localSet slot => withArgument "LocalSet" (toString slot)
  | localTee slot => withArgument "LocalTee" (toString slot)
  | load t => t.display ++ "Load" ++ t.memoryArgument
  | store t => t.display ++ "Store" ++ t.memoryArgument
  | call index => withArgument "Call" (toString index)
  | select => "Select"
  | drop => "Drop"
  | ret => "Return"
  | br depth => withArgument "Br" (toString depth)
  | brIf depth => withArgument "BrIf" (toString depth)

/-- An instruction of a flat listing as shown. -/
def Mark.display : Mark → String
  | op o => o.display
  | block => "Block(Empty)"
  | loop => "Loop(Empty)"
  | ifMark => "If(Empty)"
  | elseMark => "Else"
  | endMark => "End"

end ArrayScript
