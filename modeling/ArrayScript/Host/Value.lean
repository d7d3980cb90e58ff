import ArrayScript.Double
import ArrayScript.ValueType

/-!
The values that go into a call and come out of it.
-/

namespace ArrayScript

/-- The values of the source language outside the machine. -/
inductive Value where
  | int32 (n : Int32)
  | float64 (x : Double)
  | boolean (b : Bool)
  | int32Array (items : List Int32)
  | float64Array (items : List Double)
  deriving DecidableEq, Inhabited, Repr

namespace Value

/-- The type of a value. -/
def type : Value → ValueType
  | int32 _ => .int32
  | float64 _ => .float64
  | boolean _ => .boolean
  | int32Array _ => .int32Array
  | float64Array _ => .float64Array

/-- Whether the value is an array. -/
def isArray (v : Value) : Bool :=
  v.type.isArray

/-- The number of elements; what is not an array has none. -/
def length : Value → Nat
  | int32Array items => items.length
  | float64Array items => items.length
  | int32 _ | float64 _ | boolean _ => 0

end Value

end ArrayScript
