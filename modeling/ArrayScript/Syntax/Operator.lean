/-!
The operators of the source language and their spellings.
-/

namespace ArrayScript

/-- Operators before one operand. -/
inductive UnaryOp where
  | not
  | minus
  | plus
  deriving DecidableEq, Inhabited, Repr

/-- Operators between two operands whose values are combined. -/
inductive BinaryOp where
  | add
  | sub
  | mul
  | div
  | rem
  | pow
  | lt
  | le
  | eq
  | ne
  | ge
  | gt
  deriving DecidableEq, Inhabited, Repr

/-- Operators on truth values. -/
inductive LogicalOp where
  | and
  | or
  deriving DecidableEq, Inhabited, Repr

/-- Steps of a variable or element by one. -/
inductive UpdateOp where
  | increment
  | decrement
  deriving DecidableEq, Inhabited, Repr

/-- Plain assignment and assignment combined with arithmetic. -/
inductive AssignOp where
  | assign
  | addAssign
  | subAssign
  | mulAssign
  | divAssign
  | remAssign
  deriving DecidableEq, Inhabited, Repr

/-- The spelling of a unary operator. -/
def UnaryOp.symbol : UnaryOp → String
  | not => "!"
  | minus => "-"
  | plus => "+"

namespace BinaryOp

/-- The spelling of a binary operator. -/
def symbol : BinaryOp → String
  | add => "+"
  | sub => "-"
  | mul => "*"
  | div => "/"
  | rem => "%"
  | pow => "**"
  | lt => "<"
  | le => "<="
  | eq => "=="
  | ne => "!="
  | ge => ">="
  | gt => ">"

/-- The four operations and the remainder. -/
def isArithmetic : BinaryOp → Bool
  | add | sub | mul | div | rem => true
  | pow | lt | le | eq | ne | ge | gt => false

/-- Operators whose result is a truth value. -/
def isComparison : BinaryOp → Bool
  | lt | le | eq | ne | ge | gt => true
  | add | sub | mul | div | rem | pow => false

end BinaryOp

/-- The spelling of a logical operator. -/
def LogicalOp.symbol : LogicalOp → String
  | and => "&&"
  | or => "||"

namespace UpdateOp

/-- The spelling of an update. -/
def symbol : UpdateOp → String
  | increment => "++"
  | decrement => "--"

/-- The arithmetic an update performs with one. -/
def binaryOp : UpdateOp → BinaryOp
  | increment => .add
  | decrement => .sub

end UpdateOp

namespace AssignOp

/-- The spelling of an assignment. -/
def symbol : AssignOp → String
  | assign => "="
  | addAssign => "+="
  | subAssign => "-="
  | mulAssign => "*="
  | divAssign => "/="
  | remAssign => "%="

/-- The arithmetic an assignment is combined with; plain assignment has none. -/
def binaryOp? : AssignOp → Option BinaryOp
  | assign => none
  | addAssign => some .add
  | subAssign => some .sub
  | mulAssign => some .mul
  | divAssign => some .div
  | remAssign => some .rem

end AssignOp

end ArrayScript
