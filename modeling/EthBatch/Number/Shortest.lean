/-!
# Shortest decimal digits

A binary64 number is decoded into `m * 2 ^ q`. The reals that round to it form an interval
around it, whose ends belong to it when `m` is even. The shortest digits are found on the
coarsest decimal grid that has a point in the interval; of the two neighbours of the number
on that grid the nearer one is taken, and the even one of two equally near.

All comparisons are made on natural numbers. The unit is `2 ^ (q - 2)`, so that the number and
both ends of its interval are whole.
-/

namespace EthBatch.Number

/-- A finite positive binary64 number in units of `2 ^ unit`, with the ends of its interval. -/
structure Interval where
  value : Nat
  low : Nat
  high : Nat
  unit : Int
  closed : Bool

namespace Interval

/-- The interval of the number with a given fraction field and exponent field. -/
def ofFields (fraction exponent : Nat) : Interval :=
  let m := if exponent = 0 then fraction else fraction + Nat.pow 2 52
  let q : Int := (if exponent = 0 then 1 else (exponent : Int)) - 1075
  let narrow := fraction = 0 && exponent > 1
  { value := 4 * m, low := 4 * m - (if narrow then 1 else 2), high := 4 * m + 2,
    unit := q - 2, closed := m % 2 = 0 }

/-- Numerator and denominator that turn units into steps of the grid `10 ^ g`. -/
def ratio (i : Interval) (g : Int) : Nat × Nat :=
  (Nat.pow 2 i.unit.toNat * Nat.pow 10 (-g).toNat,
    Nat.pow 2 (-i.unit).toNat * Nat.pow 10 g.toNat)

/-- Does the grid point `d * 10 ^ g` round to the number? -/
def holds (i : Interval) (g : Int) (d : Nat) : Bool :=
  let (a, b) := i.ratio g
  if i.closed then i.low * a ≤ d * b && d * b ≤ i.high * a
  else i.low * a < d * b && d * b < i.high * a

/-- The better of the two neighbours of the number on the grid `10 ^ g`, if one rounds to it. -/
def onGrid (i : Interval) (g : Int) : Option Nat :=
  let (a, b) := i.ratio g
  let d := i.value * a / b
  match i.holds g d, i.holds g (d + 1) with
  | false, false => none
  | true, false => some d
  | false, true => some (d + 1)
  | true, true =>
    let below := i.value * a - d * b
    let above := (d + 1) * b - i.value * a
    if below < above then some d
    else if above < below then some (d + 1)
    else some (if d % 2 = 0 then d else d + 1)

/-- The largest power of ten, by its exponent, that is not above the number. -/
def magnitude (i : Interval) : Int :=
  let guess : Int := ((Nat.log2 i.value : Int) + i.unit) * 30103 / 100000
  let fits (e : Int) : Bool := let (a, b) := i.ratio e; b ≤ i.value * a
  if fits (guess + 1) then guess + 1 else if fits guess then guess else guess - 1

/-- Tries one digit, two digits and so on, at most `fuel` of them. -/
def search (i : Interval) (top : Int) : (count fuel : Nat) → Nat × Int
  | count, 0 => (i.value, top - count)
  | count, fuel + 1 =>
    let g := top - count
    match i.onGrid g with
    | some d => (d, g)
    | none => i.search top (count + 1) fuel

/-- Shortest coefficient and exponent of ten. Seventeen digits always suffice. -/
def shortest (i : Interval) : Nat × Int := i.search i.magnitude 0 18

end Interval

/-- A coefficient without its trailing zeros, and the exponent that makes up for them. -/
def stripZeros : (fuel : Nat) → Nat → Int → Nat × Int
  | 0, d, e => (d, e)
  | fuel + 1, d, e => if d ≠ 0 && d % 10 = 0 then stripZeros fuel (d / 10) (e + 1) else (d, e)

/-- Shortest digits of a finite positive number, as a coefficient that does not end in zero
and a power of ten. -/
def shortest (x : Float) : Nat × Int :=
  let bits := x.toBits.toNat
  let fraction := bits % Nat.pow 2 52
  let exponent := bits / Nat.pow 2 52 % Nat.pow 2 11
  let (d, e) := (Interval.ofFields fraction exponent).shortest
  stripZeros 20 d e

end EthBatch.Number
