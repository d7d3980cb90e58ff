import ArrayScript.Decimal

/-!
The fewest decimal digits that read back as a given double.

All reals strictly between the midpoints to the two neighbouring doubles read
back as a value, and the midpoints themselves do when the value is the even one.
For one digit, then two, and so on, the two grid points beside the value are
tried; the first grid with a point in that interval wins, and of two points the
nearer. Seventeen digits always suffice.

* `Double.shortest?` gives the digits and the power of ten.
* `DecimalStyle` says when a number is written out in full, and `Double.text`
  writes it.
-/

namespace ArrayScript

/-- Whether `c · 10^k ≤ num / den`. -/
def Decimal.leRatio (c : Nat) (k : Int) (num den : Nat) : Bool :=
  match k with
  | .ofNat j => c * Nat.pow 10 j * den ≤ num
  | .negSucc j => c * den ≤ num * Nat.pow 10 (j + 1)

/-- Whether `num / den ≤ c · 10^k`. -/
def Decimal.geRatio (c : Nat) (k : Int) (num den : Nat) : Bool :=
  match k with
  | .ofNat j => num ≤ c * Nat.pow 10 j * den
  | .negSucc j => num * Nat.pow 10 (j + 1) ≤ c * den

/-- The exponent `t` with `10^t ≤ num / den < 10^(t+1)`. The binary logarithm
places it up to two steps, which are then taken. -/
def Decimal.floorLog10 (num den : Nat) : Int :=
  let guess := Int.fdiv (((num.log2 : Int) - den.log2 - 1) * 30103) 100000
  if leRatio 1 (guess + 2) num den then guess + 2
  else if leRatio 1 (guess + 1) num den then guess + 1
  else if leRatio 1 guess num den then guess
  else guess - 1

/-- Strips the zeros at the end of a significand, at most `fuel` of them. -/
def Decimal.strip : (fuel : Nat) → Decimal → Decimal
  | 0, d => d
  | fuel + 1, d =>
    if d.significand ≠ 0 ∧ d.significand % 10 = 0 then
      strip fuel ⟨d.significand / 10, d.exponent + 1⟩
    else d

namespace Double

/-- The reals that round to one double: a quotient for the value and one for each
end, over a common denominator, and whether the ends belong to it. -/
structure Interval where
  low : Nat
  value : Nat
  high : Nat
  den : Nat
  closed : Bool

/-- The interval of `m · 2^e`. The lower neighbour is only half as far away when
`m` is the least significand of its binade and a smaller binade exists. -/
def interval (m : Nat) (e : Int) : Interval :=
  let step := if m = 0x10000000000000 ∧ -1074 < e then 1 else 2
  match e with
  | .ofNat k =>
    { low := (4 * m - step) <<< k, value := (4 * m) <<< k, high := (4 * m + 2) <<< k
      den := 4, closed := m % 2 = 0 }
  | .negSucc k =>
    { low := 4 * m - step, value := 4 * m, high := 4 * m + 2
      den := 4 <<< (k + 1), closed := m % 2 = 0 }

/-- Whether `c · 10^k` rounds to the double. -/
def Interval.holds (i : Interval) (c : Nat) (k : Int) : Bool :=
  if i.closed then Decimal.geRatio c k i.low i.den && Decimal.leRatio c k i.high i.den
  else !Decimal.leRatio c k i.low i.den && !Decimal.geRatio c k i.high i.den

/-- The grid of multiples of `10^k`: the nearer of the two points beside the
value that rounds to the double, a tie going up. -/
def Interval.onGrid? (i : Interval) (k : Int) : Option Decimal :=
  let (num, den) : Nat × Nat :=
    match k with
    | .ofNat j => (i.value, i.den * Nat.pow 10 j)
    | .negSucc j => (i.value * Nat.pow 10 (j + 1), i.den)
  let below := num / den
  let upIsNearer := den ≤ 2 * (num % den)
  match i.holds below k, i.holds (below + 1) k with
  | true, true => some ⟨if upIsNearer then below + 1 else below, k⟩
  | true, false => some ⟨below, k⟩
  | false, true => some ⟨below + 1, k⟩
  | false, false => none

/-- Tries grids of one digit more each time, `tries` of them. -/
def Interval.search (i : Interval) (top : Int) : (tries digits : Nat) → Decimal
  | 0, digits => ⟨i.value / i.den, -(digits : Int)⟩
  | tries + 1, digits =>
    match i.onGrid? (top - digits) with
    | some d => d
    | none => search i top tries (digits + 1)

/-- The shortest numeral that reads back as the absolute value of a finite
double, without trailing zeros. -/
def shortest? (x : Double) : Option Decimal :=
  match x.magnitude? with
  | none => none
  | some (0, _) => some ⟨0, 0⟩
  | some (m, e) =>
    let i := interval m e
    some (Decimal.strip 1 (i.search (Decimal.floorLog10 i.value i.den) 17 0))

end Double

/-- When a number is written without exponent: if its first digit stands for a
power of ten from `plainFrom` on and below `plainBelow`. -/
structure DecimalStyle where
  plainFrom : Int
  plainBelow : Int

namespace DecimalStyle

/-- A row of `n` zeros. -/
def zeros (n : Nat) : String :=
  String.ofList (List.replicate n '0')

/-- A positive numeral without trailing zeros, written in a style. In full there
is always a digit after the point; with an exponent, only if one is needed. -/
def write (style : DecimalStyle) (d : Decimal) : String :=
  let digits := (toString d.significand).toList
  let top := d.exponent + digits.length - 1
  if style.plainFrom ≤ top ∧ top < style.plainBelow then
    match d.exponent with
    | .ofNat k => String.ofList digits ++ zeros k ++ ".0"
    | .negSucc _ =>
      match top with
      | .ofNat t =>
        String.ofList (digits.take (t + 1)) ++ "." ++ String.ofList (digits.drop (t + 1))
      | .negSucc t => "0." ++ zeros t ++ String.ofList digits
  else
    let mantissa :=
      match digits with
      | [] => "0"
      | [c] => String.ofList [c]
      | c :: rest => String.ofList [c] ++ "." ++ String.ofList rest
    mantissa ++ "e" ++ toString top

end DecimalStyle

/-- The text of a double in a style. -/
def Double.text (style : DecimalStyle) (x : Double) : String :=
  let sign := if x.isNegative then "-" else ""
  match x.shortest? with
  | none => if x.isNaN then "NaN" else sign ++ "inf"
  | some d => if d.significand = 0 then sign ++ "0.0" else sign ++ style.write d

end ArrayScript
