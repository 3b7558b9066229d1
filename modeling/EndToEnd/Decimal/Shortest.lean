/-!
# Shortest decimals

A double stands for every real that rounds to it. Its shortest decimal is the one with the fewest
digits among those, and the nearest of them. It is written in positional notation, without a point
if it is a whole number.

The search is exact: a double is `mantissa · 2 ^ exponent`, and the ends of the interval that rounds
to it lie halfway to its neighbours. On a grid of powers of ten only the two points around the
double can lie in the interval, so the coarsest grid with a hit gives the fewest digits.
-/

namespace EndToEnd.Decimal

/-- A ratio of two numbers. -/
structure Ratio where
  num : Nat
  den : Nat

/-- The quarters of `n · 2 ^ exponent`. -/
def Ratio.quarters (n : Nat) (exponent : Int) : Ratio :=
  if exponent < 2 then ⟨n, Nat.pow 2 (2 - exponent).toNat⟩
  else ⟨n * Nat.pow 2 (exponent - 2).toNat, 1⟩

/-- The magnitude of a finite double. -/
structure Magnitude where
  mantissa : Nat
  exponent : Int
deriving DecidableEq

namespace Magnitude

/-- The least mantissa of a double with its full number of digits. -/
def leastFull : Nat := 4503599627370496

/-- The least exponent. -/
def leastExponent : Int := -1074

/-- The magnitude in the bits of a finite double. -/
def ofBits (bits : Nat) : Magnitude :=
  let fraction : Nat := bits % leastFull
  let biased : Nat := bits / leastFull % Nat.pow 2 11
  if biased = 0 then ⟨fraction, leastExponent⟩ else ⟨leastFull + fraction, (biased : Int) - 1075⟩

/-- How far the interval reaches below, in quarters of the last place: the neighbour below a power
of two is nearer. -/
def reachBelow (x : Magnitude) : Nat :=
  if x.mantissa = leastFull ∧ leastExponent < x.exponent then 1 else 2

/-- Whether `c · 10 ^ k` rounds to the double. Both ends of the interval do if its mantissa is
even. -/
def isHit (x : Magnitude) (k : Int) (c : Nat) : Bool :=
  let low := Ratio.quarters (4 * x.mantissa - x.reachBelow) x.exponent
  let high := Ratio.quarters (4 * x.mantissa + 2) x.exponent
  let up := Nat.pow 10 k.toNat * c
  let down := Nat.pow 10 (-k).toNat
  let atLeast := low.num * down
  let atMost := high.num * down
  if x.mantissa % 2 = 0 then atLeast ≤ up * low.den && up * high.den ≤ atMost
  else atLeast < up * low.den && up * high.den < atMost

/-- The point of a grid that is nearest to the double, of those next to it that round to it; of two
that are as near, the larger. -/
def nearestHit? (x : Magnitude) (k : Int) : Option Nat :=
  let value := Ratio.quarters (4 * x.mantissa) x.exponent
  let num := value.num * Nat.pow 10 (-k).toNat
  let den := value.den * Nat.pow 10 k.toNat
  let below := num / den
  let order := if 2 * (num % den) < den then [below, below + 1] else [below + 1, below]
  order.find? fun c => c ≠ 0 && x.mantissa ≠ 0 && x.isHit k c

/-- The powers of ten that are tried, coarsest first: the last is below half the least double. -/
def grids : List Int := (List.range 640).map fun i : Nat => 309 - (i : Int)

/-- The shortest decimal of a double that is not zero: digits and an exponent of ten. -/
def shortest? (x : Magnitude) : Option (Nat × Int) :=
  grids.findSome? fun k => (x.nearestHit? k).map (·, k)

end Magnitude

/-- A decimal in positional notation. -/
def positional (coefficient : Nat) (exponent : Int) : String :=
  let digits := Nat.toDigits 10 coefficient
  let places := (-exponent).toNat
  let padded := List.replicate (places + 1 - digits.length) '0' ++ digits
  let whole := padded.take (padded.length - places) ++ List.replicate exponent.toNat '0'
  let fraction := padded.drop (padded.length - places)
  String.ofList (if fraction.isEmpty then whole else whole ++ '.' :: fraction)

/-- The shortest decimal of a double in positional notation. -/
def text (x : Float) : String :=
  if x.isNaN then "NaN"
  else
    let bits := x.toBits.toNat
    let magnitude :=
      if x.isInf then "inf"
      else
        match (Magnitude.ofBits bits).shortest? with
        | some (coefficient, exponent) => positional coefficient exponent
        | none => "0"
    if bits < Nat.pow 2 63 then magnitude else "-" ++ magnitude

end EndToEnd.Decimal
