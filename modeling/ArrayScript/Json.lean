import ArrayScript.Double

/-!
Trees of JSON data.

A tree keeps two things apart that a plain reading would merge. An integer
literal is not the same as a fraction of the same value, since ids must be
integers. And what cannot be represented, a number past the largest double or a
string with half of a surrogate pair, is kept as such: it is an error only where
the value is used, not inside data that is passed over.
-/

namespace ArrayScript

/-- The value of a number literal. -/
inductive JsonNumber where
  /-- a literal without fraction and exponent that fits 64 bits -/
  | integer (n : Int)
  /-- any other literal -/
  | double (x : Double)
  /-- a literal past the largest double -/
  | outOfRange
  deriving DecidableEq, Inhabited, Repr

/-- A JSON value. Strings and keys are `none` if they hold half of a surrogate
pair; the fields of an object stand in the order in which they are written. -/
inductive Json where
  | null
  | bool (b : Bool)
  | number (n : JsonNumber)
  | string (text : Option String)
  | array (elements : List Json)
  | object (fields : List (Option String × Json))
  deriving Inhabited, Repr

namespace Json

/-- A string value. -/
def ofString (s : String) : Json :=
  .string (some s)

/-- An object with the given fields. -/
def ofFields (fields : List (String × Json)) : Json :=
  .object (fields.map fun (key, value) => (some key, value))

/-- The text of a string. -/
def string? : Json → Option String
  | string text => text
  | _ => none

/-- A truth value. -/
def bool? : Json → Option Bool
  | bool b => some b
  | _ => none

/-- A number as the nearest double. -/
def double? : Json → Option Double
  | number (.integer n) => some (Double.ofInt n)
  | number (.double x) => some x
  | _ => none

/-- An integer literal without sign, below a bound. -/
def natBelow? (bound : Nat) : Json → Option Nat
  | number (.integer n) => if 0 ≤ n ∧ n < bound then some n.toNat else none
  | _ => none

end Json

end ArrayScript
