import ArrayScript.Decimal
import ArrayScript.Json

/-!
The values of JSON number literals.

The digits of a literal are gathered into a significand of 64 bits, and one power
of ten is applied to its double at the end. From the first whole digit that no
longer fits, whole digits only count as powers of ten; from the first fraction
digit that no longer fits, fraction digits are dropped. The result is the nearest
double for all literals of up to fifteen digits with a small exponent, and may be
a neighbour of it for others.
-/

namespace ArrayScript

namespace JsonNumber

/-- The greatest significand. -/
def maxSignificand : Nat := 18446744073709551615

/-- Exponents are gathered up to this size. -/
def maxExponent : Nat := 2147483647

/-- The value of a digit. -/
def digit (c : Char) : Nat :=
  c.toNat - '0'.toNat

/-- Gathers whole digits; also counts those from the first that does not fit. -/
def gatherWhole (significand : Nat) : List Char → Nat × Nat
  | [] => (significand, 0)
  | c :: rest =>
    if 10 * significand + digit c ≤ maxSignificand then
      gatherWhole (10 * significand + digit c) rest
    else (significand, rest.length + 1)

/-- Gathers fraction digits up to the first that does not fit; also counts them. -/
def gatherFraction (significand taken : Nat) : List Char → Nat × Nat
  | [] => (significand, taken)
  | c :: rest =>
    if 10 * significand + digit c ≤ maxSignificand then
      gatherFraction (10 * significand + digit c) (taken + 1) rest
    else (significand, taken)

/-- Ten to a power, as the nearest double. -/
def powerOfTen (k : Nat) : Double :=
  (Decimal.mk 1 k).toDouble

/-- A double times a power of ten. A power past `10^308` leaves only zero in range;
one below `10^-308` is applied in two steps, and two such steps make any
significand zero. -/
def scale? (x : Double) (exponent : Int) : Option Double :=
  if 308 < exponent then
    if x = Double.zero then some x else none
  else if 0 ≤ exponent then
    let r := x * powerOfTen exponent.toNat
    if r.isFinite then some r else none
  else if -308 ≤ exponent then some (x / powerOfTen (-exponent).toNat)
  else if -616 ≤ exponent then some (x / powerOfTen 308 / powerOfTen (-exponent - 308).toNat)
  else some Double.zero

/-- The number with the given sign, if it is in range. -/
def ofMagnitude (negative : Bool) : Option Double → JsonNumber
  | none => .outOfRange
  | some x => .double (if negative then -x else x)

/-- The value of a literal without fraction and exponent. A number from `-2^63` up to
`2^64 - 1` is an integer, but the literal `-0` is a double, which keeps its sign. -/
def ofWhole (negative : Bool) (digits : List Char) : JsonNumber :=
  match gatherWhole 0 digits with
  | (significand, 0) =>
    if negative then
      if 0 < significand ∧ significand ≤ 9223372036854775808 then .integer (-(significand : Int))
      else .double (-(Double.ofInt significand))
    else .integer significand
  | (significand, dropped + 1) =>
    ofMagnitude negative (scale? (Double.ofInt significand) (dropped + 1))

/-- The value of a literal with a fraction or an exponent; the exponent is given by
its sign and digits. -/
def ofParts (negative : Bool) (whole fraction : List Char) (downward : Bool)
    (exponent : List Char) : JsonNumber :=
  let (significand, dropped) := gatherWhole 0 whole
  let (significand, taken) := gatherFraction significand 0 fraction
  let size := Decimal.ofDigits exponent
  if maxExponent < size then
    if significand ≠ 0 ∧ !downward then .outOfRange
    else .double (if negative then -Double.zero else Double.zero)
  else
    let shift : Int := (dropped : Int) - taken
    let power : Int := if downward then shift - size else shift + size
    ofMagnitude negative (scale? (Double.ofInt significand) power)

end JsonNumber

end ArrayScript
