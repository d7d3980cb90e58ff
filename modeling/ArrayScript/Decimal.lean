import ArrayScript.Double

/-!
Decimal numerals and the doubles they stand for.

A numeral is a significand and a power of ten. `Decimal.toDouble` is the nearest
double, a tie going to the even neighbour; a numeral past the largest double is
infinite. Exponents are not bounded, so the two ends are cut off first: beyond
them the answer is known without writing the power of ten out.
-/

namespace ArrayScript

/-- The number `significand · 10^exponent`. -/
structure Decimal where
  significand : Nat
  exponent : Int
  deriving DecidableEq, Inhabited, Repr

namespace Decimal

/-- The value of a string of digits; other characters count as zero. -/
def ofDigits (digits : List Char) : Nat :=
  digits.foldl (fun n c => 10 * n + (c.toNat - '0'.toNat)) 0

/-- The numeral `whole.fraction · 10^exponent`, the first two given by their digits. -/
def ofParts (whole fraction : List Char) (exponent : Int) : Decimal where
  significand := ofDigits (whole ++ fraction)
  exponent := exponent - fraction.length

/-- The nearest double. A positive power of ten from `10^309` on is past the
largest double; a quotient below `2^-1080` is nearer to zero than to the least
positive one. -/
def toDouble (d : Decimal) : Double :=
  if d.significand = 0 then Double.zero
  else
    match d.exponent with
    | .ofNat k =>
      if 309 ≤ k then Double.infinity
      else Double.ofRatio false (d.significand * Nat.pow 10 k) 1
    | .negSucc k =>
      if d.significand.log2 + 1081 < 3 * (k + 1) then Double.zero
      else Double.ofRatio false d.significand (Nat.pow 10 (k + 1))

end Decimal

end ArrayScript
