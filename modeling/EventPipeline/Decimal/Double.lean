/-!
# Numbers of 53 significant bits

A number of double precision is `mantissa * 2 ^ exponent` with a sign, where the
mantissa has 53 bits wherever the exponent leaves a choice. The result of an
operation is the exact quotient of two natural numbers, rounded to the nearest
such number, a tie to the even mantissa; numbers below `2 ^ (-1022)` have fewer
bits, and from `2 ^ 1024` on there are none.
-/
namespace EventPipeline.Decimal

/-- `n / d` rounded to the nearest natural number, a tie to the even one. -/
def roundQuotient (n d : Nat) : Nat :=
  if d < 2 * (n % d) ∨ (2 * (n % d) = d ∧ n / d % 2 = 1) then n / d + 1 else n / d

/-- The size of a number of double precision. -/
structure Double where
  mantissa : Nat
  exponent : Int
deriving DecidableEq

namespace Double

/-- The exponent of the last bit of numbers as small as they get. -/
def leastExponent : Int := -1074

/-- `2 ^ e`, or 1 for a negative `e`. -/
def pow2 (e : Int) : Nat := Nat.pow 2 e.toNat

/-- The number nearest to `n / d`, or nothing if that is out of range. -/
def ofQuotient? (n d : Nat) : Option Double :=
  if n = 0 then some ⟨0, leastExponent⟩
  else
    let k : Int := (Nat.log2 n : Int) - (Nat.log2 d : Int)
    let top := if d * pow2 k ≤ n * pow2 (-k) then k else k - 1
    let e := max (top - 52) leastExponent
    let m := roundQuotient (n * pow2 (-e)) (d * pow2 e)
    if pow2 1024 ≤ m * pow2 e then none
    else if m = pow2 53 then some ⟨pow2 52, e + 1⟩
    else some ⟨m, e⟩

/-- The number nearest to `n`, or nothing if that is out of range. -/
def ofNat? (n : Nat) : Option Double := ofQuotient? n 1

/-- The product of two numbers. -/
def mul? (a b : Double) : Option Double :=
  let e := a.exponent + b.exponent
  ofQuotient? (a.mantissa * b.mantissa * pow2 e) (pow2 (-e))

/-- The quotient of two numbers, the second of which is not zero. -/
def div? (a b : Double) : Option Double :=
  let e := a.exponent - b.exponent
  ofQuotient? (a.mantissa * pow2 e) (b.mantissa * pow2 (-e))

end Double

end EventPipeline.Decimal
