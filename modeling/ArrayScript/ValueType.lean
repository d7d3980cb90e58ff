/-!
The types of the source language and of the machine.

A value is an integer, a double, a boolean, or an array of integers or doubles.
The machine knows 32-bit words and doubles only: booleans travel as `0` and `1`
and arrays as the address of their first element.
-/

namespace ArrayScript

/-- The types of values on the machine. -/
inductive WordType where
  | i32
  | f64
  deriving DecidableEq, Inhabited, Repr

/-- The types of values in the source language. -/
inductive ValueType where
  | int32
  | float64
  | boolean
  | int32Array
  | float64Array
  deriving DecidableEq, Inhabited, Repr

namespace ValueType

/-- Arrays of either kind. -/
def isArray : ValueType → Bool
  | int32Array | float64Array => true
  | int32 | float64 | boolean => false

/-- Doubles, the only values that are not machine words. -/
def isFloat : ValueType → Bool
  | float64 => true
  | int32 | boolean | int32Array | float64Array => false

/-- The machine type a value travels as. -/
def wordType : ValueType → WordType
  | float64 => .f64
  | int32 | boolean | int32Array | float64Array => .i32

/-- The type of the elements; what is not an array of doubles is addressed as integers. -/
def elementType : ValueType → ValueType
  | float64Array => float64
  | int32 | float64 | boolean | int32Array => int32

/-- The width in bytes of an element, and of the length that precedes the elements. -/
def elementSize : ValueType → Nat
  | float64Array => 8
  | int32 | float64 | boolean | int32Array => 4

/-- The numeric type an operand is brought to: double, or else integer. -/
def numeric (t : ValueType) : ValueType :=
  if t.isFloat then float64 else int32

/-- The name of a type in annotations and messages. -/
def display : ValueType → String
  | int32 => "int"
  | float64 => "double"
  | boolean => "boolean"
  | int32Array => "int[]"
  | float64Array => "double[]"

end ValueType

end ArrayScript
