import EventPipeline.Decimal.Digits
import EventPipeline.Decimal.Double
/-!
# The shortest decimal that reads back

A number of double precision is written with the fewest decimal digits that
determine it, the nearest of those if there are several, and of two as near the
even one. The digits come from the interval of numbers that round to the one
written: on each decimal grid, coarse ones first, the two neighbours are tried.
-/
namespace EventPipeline.Decimal

/-- A decimal number: `significand * 10 ^ exponent`. -/
structure Scientific where
  significand : Nat
  exponent : Int
deriving DecidableEq

namespace Double

/-- Numerator and denominator of a number and of both ends of the interval of numbers that
round to it, over one denominator. -/
structure Interval where
  low : Nat
  value : Nat
  high : Nat
  denominator : Nat
  closed : Bool

/-- The interval of numbers that round to `a`; its ends belong to it if the mantissa is even. -/
def interval (a : Double) : Interval :=
  let up := pow2 a.exponent
  let below := if a.mantissa = pow2 52 ∧ leastExponent < a.exponent then 1 else 2
  { low := (4 * a.mantissa - below) * up
    value := 4 * a.mantissa * up
    high := (4 * a.mantissa + 2) * up
    denominator := 4 * pow2 (-a.exponent)
    closed := a.mantissa % 2 = 0 }

end Double

/-- `10 ^ e`, or 1 for a negative `e`. -/
def pow10 (e : Int) : Nat := Nat.pow 10 e.toNat

/-- Whether `digits * 10 ^ e` lies in the interval. -/
def Double.Interval.contains (i : Double.Interval) (digits : Nat) (e : Int) : Bool :=
  let x := digits * pow10 e * i.denominator
  let low := i.low * pow10 (-e)
  let high := i.high * pow10 (-e)
  if i.closed then low ≤ x && x ≤ high else low < x && x < high

/-- Twice the distance of `digits * 10 ^ e` from the value, in some fixed unit. -/
def Double.Interval.distance (i : Double.Interval) (digits : Nat) (e : Int) : Nat :=
  let x := digits * pow10 e * i.denominator
  let v := i.value * pow10 (-e)
  (x - v) + (v - x)

/-- Whether `digits + 1` stands for the value better than `digits` does: it is nearer, or as near
and even. -/
def Double.Interval.roundsUp (i : Double.Interval) (digits : Nat) (e : Int) : Bool :=
  let below := i.distance digits e
  let above := i.distance (digits + 1) e
  above < below || (above = below && digits % 2 = 1)

/-- The better of the value's two neighbours among the multiples of `10 ^ e`, if one of them
lies in the interval. -/
def Double.Interval.neighbour? (i : Double.Interval) (e : Int) : Option Nat :=
  let d := i.value * pow10 (-e) / (i.denominator * pow10 e)
  match i.contains d e, i.contains (d + 1) e with
  | true, true => some (if i.roundsUp d e then d + 1 else d)
  | true, false => some d
  | false, true => some (d + 1)
  | false, false => none

/-- Try `count` grids, from the one with unit `10 ^ e` to finer ones. -/
def Double.Interval.search (i : Double.Interval) : Nat → Int → Scientific
  | 0, e => ⟨i.value * pow10 (-e) / (i.denominator * pow10 e), e⟩
  | count + 1, e =>
    match i.neighbour? e with
    | some d => ⟨d, e⟩
    | none => i.search count (e - 1)

/-- The decimal exponent of `n / d`: the `e` with `10 ^ e ≤ n / d < 10 ^ (e + 1)`. -/
def decimalExponent (n d : Nat) : Int :=
  let e : Int := ((digits n).length : Int) - (digits d).length
  if d * pow10 e ≤ n * pow10 (-e) then e else e - 1

/-- A decimal without zeros at the end. -/
def Scientific.trimmed (s : Scientific) : Scientific :=
  let ds := digits s.significand
  let kept := (ds.reverse.dropWhile (· == 0)).reverse
  ⟨ofDigits kept, s.exponent + (ds.length - kept.length : Nat)⟩

/-- The shortest decimal that reads back as `a`. -/
def Double.shortest (a : Double) : Scientific :=
  if a.mantissa = 0 then ⟨0, 0⟩
  else
    let i := a.interval
    (i.search 17 (decimalExponent i.value i.denominator)).trimmed

/-- A whole number written out: its digits, with a zero for each place they leave open. -/
def Scientific.wholeChars (s : Scientific) : List Char :=
  natChars s.significand ++ List.replicate s.exponent.toNat '0'

/-- A number with its sign. -/
structure Signed where
  negative : Bool
  size : Double
deriving DecidableEq

/-- How a decimal is laid out: positional from `10 ^ (-5)` up to below `10 ^ 16`, with at
least one digit after the point, and else with a signed exponent. -/
def Scientific.chars (s : Scientific) : List Char :=
  let ds := natChars s.significand
  let point : Int := ds.length + s.exponent
  if 0 ≤ s.exponent ∧ point ≤ 16 then
    ds ++ List.replicate s.exponent.toNat '0' ++ ['.', '0']
  else if 0 < point ∧ point ≤ 16 then
    ds.take point.toNat ++ '.' :: ds.drop point.toNat
  else if -5 < point ∧ point ≤ 0 then
    ['0', '.'] ++ List.replicate (-point).toNat '0' ++ ds
  else
    let e := point - 1
    let fraction := if ds.length = 1 then [] else '.' :: ds.drop 1
    ds.take 1 ++ fraction ++ 'e' :: (if e < 0 then '-' else '+') :: natChars e.natAbs

/-- The text of a number of double precision. -/
def Signed.text (x : Signed) : String :=
  String.ofList ((if x.negative then ['-'] else []) ++ x.size.shortest.chars)

end EventPipeline.Decimal
