import ArrayScript.Syntax.Statement

/-!
The names under which operators, types and keywords are stored.

Each type has a function `name` and the list `all` of its members; `ofName?` looks
a name up in that list, and `ofName?_name` says that it undoes `name`.
-/

namespace ArrayScript

namespace ValueType

/-- The stored name of a type. -/
def name : ValueType → String
  | int32 => "Int32"
  | float64 => "Float64"
  | boolean => "Boolean"
  | int32Array => "Int32Array"
  | float64Array => "Float64Array"

/-- All types. -/
def all : List ValueType := [int32, float64, boolean, int32Array, float64Array]

/-- The type of a stored name. -/
def ofName? (s : String) : Option ValueType :=
  all.find? (·.name = s)

theorem ofName?_name (t : ValueType) : ofName? t.name = some t := by
  cases t <;> decide +kernel

end ValueType

namespace UnaryOp

/-- The stored name of an operator. -/
def name : UnaryOp → String
  | not => "Not"
  | minus => "Minus"
  | plus => "Plus"

/-- All unary operators. -/
def all : List UnaryOp := [not, minus, plus]

/-- The operator of a stored name. -/
def ofName? (s : String) : Option UnaryOp :=
  all.find? (·.name = s)

theorem ofName?_name (op : UnaryOp) : ofName? op.name = some op := by
  cases op <;> decide +kernel

end UnaryOp

namespace BinaryOp

/-- The stored name of an operator. -/
def name : BinaryOp → String
  | add => "Add"
  | sub => "Sub"
  | mul => "Mul"
  | div => "Div"
  | rem => "Rem"
  | pow => "Pow"
  | lt => "Lt"
  | le => "Le"
  | eq => "Eq"
  | ne => "Ne"
  | ge => "Ge"
  | gt => "Gt"

/-- All binary operators. -/
def all : List BinaryOp := [add, sub, mul, div, rem, pow, lt, le, eq, ne, ge, gt]

/-- The operator of a stored name. -/
def ofName? (s : String) : Option BinaryOp :=
  all.find? (·.name = s)

theorem ofName?_name (op : BinaryOp) : ofName? op.name = some op := by
  cases op <;> decide +kernel

end BinaryOp

namespace LogicalOp

/-- The stored name of an operator. -/
def name : LogicalOp → String
  | and => "And"
  | or => "Or"

/-- All logical operators. -/
def all : List LogicalOp := [and, or]

/-- The operator of a stored name. -/
def ofName? (s : String) : Option LogicalOp :=
  all.find? (·.name = s)

theorem ofName?_name (op : LogicalOp) : ofName? op.name = some op := by
  cases op <;> decide +kernel

end LogicalOp

namespace UpdateOp

/-- The stored name of an operator. -/
def name : UpdateOp → String
  | increment => "Increment"
  | decrement => "Decrement"

/-- All updates. -/
def all : List UpdateOp := [increment, decrement]

/-- The operator of a stored name. -/
def ofName? (s : String) : Option UpdateOp :=
  all.find? (·.name = s)

theorem ofName?_name (op : UpdateOp) : ofName? op.name = some op := by
  cases op <;> decide +kernel

end UpdateOp

namespace AssignOp

/-- The stored name of an operator. -/
def name : AssignOp → String
  | assign => "Assign"
  | addAssign => "AddAssign"
  | subAssign => "SubAssign"
  | mulAssign => "MulAssign"
  | divAssign => "DivAssign"
  | remAssign => "RemAssign"

/-- All assignments. -/
def all : List AssignOp := [assign, addAssign, subAssign, mulAssign, divAssign, remAssign]

/-- The operator of a stored name. -/
def ofName? (s : String) : Option AssignOp :=
  all.find? (·.name = s)

theorem ofName?_name (op : AssignOp) : ofName? op.name = some op := by
  cases op <;> decide +kernel

end AssignOp

namespace DeclarationKind

/-- The stored name of a keyword. -/
def name : DeclarationKind → String
  | var => "Var"
  | let' => "Let"
  | const => "Const"

/-- All keywords that open a declaration. -/
def all : List DeclarationKind := [var, let', const]

/-- The keyword of a stored name. -/
def ofName? (s : String) : Option DeclarationKind :=
  all.find? (·.name = s)

theorem ofName?_name (k : DeclarationKind) : ofName? k.name = some k := by
  cases k <;> decide +kernel

end DeclarationKind

/-- An operator of any of the five families. -/
inductive AnyOp where
  | binary (op : BinaryOp)
  | assign (op : AssignOp)
  | unary (op : UnaryOp)
  | logical (op : LogicalOp)
  | update (op : UpdateOp)
  deriving DecidableEq, Repr

/-- The operator of a stored name, looked for family by family. -/
def AnyOp.ofName? (s : String) : Option AnyOp :=
  (BinaryOp.ofName? s).map .binary <|> (AssignOp.ofName? s).map .assign <|>
    (UnaryOp.ofName? s).map .unary <|> (LogicalOp.ofName? s).map .logical <|>
    (UpdateOp.ofName? s).map .update

end ArrayScript
