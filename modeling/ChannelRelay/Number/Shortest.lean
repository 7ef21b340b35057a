import ChannelRelay.Number.Binary64

/-!
# Shortest decimals

The decimal with the fewest digits that rounds to a given double, and of those
with that many digits the nearest.  A double is the centre of an interval of
reals that round to it, whose ends belong to it when the significand is even.  If
a decimal grid has a point in the interval, one of the two neighbours of the
double on that grid is such a point, so the grids with 1, 2, ... 17 digits are
tried in turn.

The double, its interval and the grids are counted in one unit, a negative power
of two times a negative power of ten, of which all of them are whole multiples.
-/

namespace ChannelRelay

/-- A decimal `digits * 10 ^ exponent`. -/
structure ShortDecimal where
  digits : Nat
  exponent : Int
deriving DecidableEq, Repr

/-- A number and the interval around it, counted in one unit. -/
structure Surrounded where
  low : Nat
  value : Nat
  high : Nat
  /-- Whether the ends belong to the interval. -/
  closed : Bool
deriving DecidableEq, Repr

namespace Surrounded

/-- Whether a point lies in the interval. -/
def covers (x : Surrounded) (point : Nat) : Bool :=
  if x.closed then x.low ≤ point && point ≤ x.high else x.low < point && point < x.high

/-- The multiple of `step` in the interval that is nearest to the number, as how many
steps it is.  Of two equally near ones it is the even one. -/
def nearest? (x : Surrounded) (step : Nat) : Option Nat :=
  let below := x.value / step
  let gapBelow := x.value % step
  let gapAbove := step - gapBelow
  match x.covers (x.value - gapBelow), x.covers (x.value + gapAbove) with
  | true, true =>
    if gapBelow < gapAbove || (gapBelow == gapAbove && below % 2 == 0) then some below
    else some (below + 1)
  | true, false => some below
  | false, true => some (below + 1)
  | false, false => none

end Surrounded

namespace Magnitude

/-- The magnitude and the reals that round to it, in the unit
`2 ^ (min exponent 0 - 2) / 10 ^ tens`.  Below a power of two the spacing halves. -/
def surrounded (m : Magnitude) (tens : Nat) : Surrounded :=
  let quarter := twoTo m.exponent.toNat * tenTo tens
  let value := 4 * m.significand * quarter
  let gap := if m.significand = twoTo 52 ∧ m.exponent ≠ leastExponent then 1 else 2
  ⟨value - gap * quarter, value, value + 2 * quarter, m.significand % 2 = 0⟩

/-- Whether a positive magnitude is at least `10 ^ exponent`. -/
def reaches (m : Magnitude) (exponent : Int) : Bool :=
  let (num, den) := m.ratio
  if 0 ≤ exponent then den * tenTo exponent.toNat ≤ num
  else den ≤ num * tenTo (-exponent).toNat

/-- The exponent of the first decimal digit of a positive magnitude. -/
def decimalExponent (m : Magnitude) : Int :=
  -- A power of two has about 0.30103 times as many decimal digits as binary ones; the
  -- guess is right or one too small, since the binary exponent is rounded down.
  let guess := (Nat.log2 m.significand + m.exponent) * 30103 / 100000
  if m.reaches (guess + 1) then guess + 1 else guess

/-- The shortest decimal of a positive magnitude. -/
def shortest (m : Magnitude) : ShortDecimal :=
  let first := m.decimalExponent
  -- The exponent of the finest grid, and the unit that makes its step whole.
  let finest := first - 16
  let tens := (-finest).toNat
  let x := m.surrounded tens
  let unit := twoTo (2 + (-m.exponent).toNat) * tenTo finest.toNat
  let decimal? (count : Nat) : Option ShortDecimal :=
    (x.nearest? (unit * tenTo (17 - count))).map fun digits => ⟨digits, first + 1 - count⟩
  ((List.range' 1 17).findSome? decimal?).getD ⟨0, 0⟩

end Magnitude

end ChannelRelay
