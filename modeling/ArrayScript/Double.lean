/-!
Double-precision numbers, held as their sixty-four bits.

A `Double` is a sign bit, eleven exponent bits and fifty-two fraction bits.
Keeping the bits, rather than the number they stand for, makes every question
about a value decidable and every transfer through memory exact.

* `Double.magnitude?` reads a finite value as `m · 2^e` with `m` a natural
  number and `e` an integer; `Double.truncated?` is its integer part.
* `Double.ofRatio` is the nearest double to a quotient of natural numbers, a tie
  going to the even neighbour. Every conversion into doubles goes through it.
* Sum, difference, product and quotient are those of the hardware. A NaN operand
  is handed on, made quiet; an operation that has no value makes `indefinite`.
* `Double.trunc` cuts off the fraction, and `Double.rem` is what is left of a
  number if its quotient is cut off. Neither rounds.
* `Double.toInt32Saturating` clamps into the 32-bit range and
  `Double.toInt32Wrapping` reduces modulo `2^32`; they differ only outside it.
-/

namespace ArrayScript

/-- A double-precision number, given by its bits. -/
structure Double where
  bits : UInt64
  deriving DecidableEq, Inhabited, Repr

namespace Double

/-! ### The three fields -/

/-- The sign bit. -/
def isNegative (x : Double) : Bool :=
  x.bits >>> 63 == 1

/-- The exponent field, from `0` to `2047`. -/
def exponentField (x : Double) : Nat :=
  ((x.bits >>> 52) &&& 0x7ff).toNat

/-- The fraction field, below `2^52`. -/
def fractionField (x : Double) : Nat :=
  (x.bits &&& 0xfffffffffffff).toNat

/-- Neither infinite nor NaN. -/
def isFinite (x : Double) : Bool :=
  x.exponentField != 2047

/-- Not a number: the exponent field is full and the fraction is not zero. -/
def isNaN (x : Double) : Bool :=
  x.exponentField == 2047 && x.fractionField != 0

/-- Positive zero. -/
def zero : Double := ⟨0⟩

/-- The number one. -/
def one : Double := ⟨0x3ff0000000000000⟩

/-- Positive infinity. -/
def infinity : Double := ⟨0x7ff0000000000000⟩

/-- The quiet NaN without sign. -/
def quietNaN : Double := ⟨0x7ff8000000000000⟩

/-- The NaN made by an operation on numbers that has no value. -/
def indefinite : Double := ⟨0xfff8000000000000⟩

/-- The same NaN with its quiet bit set. -/
def quieted (x : Double) : Double :=
  ⟨x.bits ||| 0x8000000000000⟩

/-! ### Exact values -/

/-- A finite value is `m · 2^e` up to its sign: the pair `(m, e)`, with `m` below
`2^53` and `e` at least `-1074`. -/
def magnitude? (x : Double) : Option (Nat × Int) :=
  if x.isFinite then
    if x.exponentField = 0 then some (x.fractionField, -1074)
    else some (0x10000000000000 + x.fractionField, (x.exponentField : Int) - 1075)
  else none

/-- The integer part of `m · 2^e`. -/
def floorScaled (m : Nat) : Int → Nat
  | .ofNat k => m <<< k
  | .negSucc k => m >>> (k + 1)

/-- Whether `m · 2^e` is a whole number. -/
def isWhole (m : Nat) : Int → Bool
  | .ofNat _ => true
  | .negSucc k => m % Nat.pow 2 (k + 1) == 0

/-- `n` with the sign of `x`. -/
def withSign (x : Double) (n : Nat) : Int :=
  if x.isNegative then -(n : Int) else n

/-- The value with its fraction cut off; there is none for infinities and NaN. -/
def truncated? (x : Double) : Option Int :=
  x.magnitude?.map fun (m, e) => x.withSign (floorScaled m e)

/-- The value itself, if it is an integer. Both zeros are the integer `0`. -/
def integer? (x : Double) : Option Int :=
  match x.magnitude? with
  | some (m, e) => if isWhole m e then some (x.withSign (floorScaled m e)) else none
  | none => none

/-! ### The nearest double -/

/-- `num / den` rounded to an integer, a tie going to the even one. -/
def roundHalfEven (num den : Nat) : Nat :=
  let q := num / den
  let r := num % den
  if 2 * r < den then q
  else if den < 2 * r then q + 1
  else if q % 2 = 0 then q else q + 1

/-- The exponent `L` with `2^L ≤ num / den < 2^(L+1)`, for positive `num` and `den`. -/
def floorLog2 (num den : Nat) : Int :=
  let l : Int := (num.log2 : Int) - den.log2
  let reaches : Bool :=
    match l with
    | .ofNat k => den <<< k ≤ num
    | .negSucc k => den ≤ num <<< (k + 1)
  if reaches then l else l - 1

/-- The bits of the double nearest to `num / den`, a tie going to the even
neighbour and values past the largest double to infinity.

The quotient is brought to a whole number `q` of units `2^e`, where `e` leaves
fifty-three bits before the point but is at least `-1074`. Consecutive bit
patterns are consecutive doubles, so the pattern is `2^52` for each unit step of
`e` above `-1074`, plus `q`; a carry out of `q` lands in the next binade. -/
def nearestBits (num den : Nat) : Nat :=
  if num = 0 then 0
  else
    let e := max (floorLog2 num den - 52) (-1074)
    let q :=
      match e with
      | .ofNat k => roundHalfEven num (den <<< k)
      | .negSucc k => roundHalfEven (num <<< (k + 1)) den
    min ((e + 1074).toNat * 0x10000000000000 + q) (2047 * 0x10000000000000)

/-- The double nearest to `num / den`, with a given sign. -/
def ofRatio (negative : Bool) (num den : Nat) : Double :=
  ⟨UInt64.ofNat (nearestBits num den) ||| (if negative then 0x8000000000000000 else 0)⟩

/-- The double nearest to an integer; zero is positive. -/
def ofInt (n : Int) : Double :=
  ofRatio (n < 0) n.natAbs 1

/-- A 32-bit integer as a double, which is always exact. -/
def ofInt32 (n : Int32) : Double :=
  ofInt n.toInt

/-! ### Arithmetic -/

/-- A binary operation of the hardware. The first NaN among the operands is
handed on; a NaN made from numbers is `indefinite`. -/
@[inline] def operate (op : Float → Float → Float) (x y : Double) : Double :=
  if x.isNaN then x.quieted
  else if y.isNaN then y.quieted
  else
    let r := op (Float.ofBits x.bits) (Float.ofBits y.bits)
    if r.isNaN then indefinite else ⟨r.toBits⟩

/-- The sum. -/
def add (x y : Double) : Double := operate (· + ·) x y

/-- The difference. -/
def sub (x y : Double) : Double := operate (· - ·) x y

/-- The product. -/
def mul (x y : Double) : Double := operate (· * ·) x y

/-- The quotient. -/
def div (x y : Double) : Double := operate (· / ·) x y

/-- The sign bit flipped, for NaN as well. -/
def neg (x : Double) : Double :=
  ⟨x.bits ^^^ 0x8000000000000000⟩

instance : Add Double := ⟨add⟩
instance : Sub Double := ⟨sub⟩
instance : Mul Double := ⟨mul⟩
instance : Div Double := ⟨div⟩
instance : Neg Double := ⟨neg⟩

/-! ### Comparison of numbers

NaN is neither below, above nor equal to anything; the two zeros are equal. -/

/-- `x < y` as numbers. -/
def lt (x y : Double) : Bool :=
  Float.ofBits x.bits < Float.ofBits y.bits

/-- `x ≤ y` as numbers. -/
def le (x y : Double) : Bool :=
  Float.ofBits x.bits ≤ Float.ofBits y.bits

/-- `x = y` as numbers. -/
def eq (x y : Double) : Bool :=
  Float.ofBits x.bits == Float.ofBits y.bits

/-! ### Integer parts and remainders -/

/-- The value with its fraction cut off. The sign stays, also that of a zero. -/
def trunc (x : Double) : Double :=
  match x.magnitude? with
  | some (m, e) => ofRatio x.isNegative (floorScaled m e) 1
  | none => if x.isNaN then x.quieted else x

/-- The sign bit cleared. -/
def abs (x : Double) : Double :=
  ⟨x.bits &&& 0x7fffffffffffffff⟩

/-- The double nearest to `m · 2^e`, with a given sign. -/
def ofScaled (negative : Bool) (m : Nat) : Int → Double
  | .ofNat k => ofRatio negative (m <<< k) 1
  | .negSucc k => ofRatio negative m (1 <<< (k + 1))

/-- What division leaves of `x` if the quotient is cut off to an integer. It has the sign
of `x`. Both operands are counted in the smaller of their two units, so it is exact. -/
def rem (x y : Double) : Double :=
  if x.isNaN then x.quieted
  else if y.isNaN then y.quieted
  else
    match x.magnitude?, y.magnitude? with
    | some (m, e), some (n, f) =>
      if n = 0 then indefinite
      else
        let unit := min e f
        ofScaled x.isNegative ((m <<< (e - unit).toNat) % (n <<< (f - unit).toNat)) unit
    | some _, none => x
    | none, _ => indefinite

/-- The remainder brought up by the divisor if it is negative. -/
def remEuclid (x y : Double) : Double :=
  let r := x.rem y
  if r.lt zero then r.add y.abs else r

/-! ### Into 32-bit integers -/

/-- Truncation to an integer without sign that saturates: what is not positive is `0`, and
so is NaN. -/
def toUInt32Saturating (x : Double) : UInt32 :=
  match x.truncated? with
  | some n => UInt32.ofNat (min n.toNat 4294967295)
  | none => if x.isNaN || x.isNegative then 0 else 4294967295

/-- An integer brought to the nearest end of the 32-bit range if it lies outside. -/
def clampInt32 (n : Int) : Int32 :=
  Int32.ofInt (max (-2147483648) (min n 2147483647))

/-- Truncation that saturates: NaN is `0`, an infinity the end of the range on
its side, and a number too large in either direction likewise. -/
def toInt32Saturating (x : Double) : Int32 :=
  match x.truncated? with
  | some n => clampInt32 n
  | none =>
    if x.isNaN then 0
    else if x.isNegative then Int32.minValue
    else Int32.maxValue

/-- `2^32`, the number of words. -/
def wordCount : Double := ⟨0x41f0000000000000⟩

/-- Truncation that wraps: the integer part modulo `2^32`, and `0` for NaN and the
infinities. The remainder is a word without sign, which is read as one with a sign. -/
def toInt32Wrapping (x : Double) : Int32 :=
  if x.isFinite then (x.trunc.remEuclid wordCount).toUInt32Saturating.toInt32 else 0

end Double

end ArrayScript
