import ChannelRelay.Number.Power

/-!
# Double precision numbers

A finite double as a sign and a magnitude `significand * 2 ^ exponent`, and the
rounding of exact ratios to the nearest magnitude, ties to the even significand.
All arithmetic is exact arithmetic on naturals followed by one rounding.
-/

namespace ChannelRelay

/-- The magnitude `significand * 2 ^ exponent`. -/
structure Magnitude where
  significand : Nat
  exponent : Int
deriving DecidableEq, Repr

/-- A finite double. -/
structure Binary64 where
  negative : Bool
  magnitude : Magnitude
deriving DecidableEq, Repr

namespace Magnitude

/-- The magnitude zero. -/
def zero : Magnitude := ⟨0, 0⟩

/-- The smallest exponent a magnitude has. -/
def leastExponent : Int := -1074

/-- The largest exponent a magnitude has. -/
def greatestExponent : Int := 971

/-- The quotient of two naturals rounded to the nearest natural, ties to even. -/
def roundQuotient (num den : Nat) : Nat :=
  let quotient := num / den
  let twice := 2 * (num % den)
  if twice < den || (twice == den && quotient % 2 == 0) then quotient else quotient + 1

/-- A ratio divided by `2 ^ exponent`, as a numerator and a denominator. -/
def scaled (num den : Nat) (exponent : Int) : Nat × Nat :=
  if 0 ≤ exponent then (num, den * twoTo exponent.toNat)
  else (num * twoTo (-exponent).toNat, den)

/-- The exponent at which the whole part of a positive ratio has 53 bits, or the
least exponent if that one is larger. -/
def exponentOf (num den : Nat) : Int :=
  -- The guess is right or one too large, since each logarithm is rounded down.
  let guess : Int := (Nat.log2 num : Int) - (Nat.log2 den : Int) - 52
  let (n, d) := scaled num den guess
  max leastExponent (if n / d < twoTo 52 then guess - 1 else guess)

/-- The magnitude nearest to a ratio; none if it lies past the largest one. -/
def ofRatio? (num den : Nat) : Option Magnitude :=
  if num = 0 then some zero
  else
    let exponent := exponentOf num den
    let (n, d) := scaled num den exponent
    let significand := roundQuotient n d
    if significand = 0 then some zero
    else
      -- Rounding up may have added a bit.
      let rounded : Magnitude :=
        if significand = twoTo 53 then ⟨twoTo 52, exponent + 1⟩ else ⟨significand, exponent⟩
      if rounded.exponent ≤ greatestExponent then some rounded else none

/-- The magnitude `m * 2 ^ e` as a ratio. -/
def ratio (m : Magnitude) : Nat × Nat :=
  scaled m.significand 1 (-m.exponent)

/-- The product, rounded. -/
def mul? (a b : Magnitude) : Option Magnitude :=
  ofRatio? (a.ratio.1 * b.ratio.1) (a.ratio.2 * b.ratio.2)

/-- The quotient, rounded. -/
def div? (a b : Magnitude) : Option Magnitude :=
  ofRatio? (a.ratio.1 * b.ratio.2) (a.ratio.2 * b.ratio.1)

/-- The largest power of ten that is a magnitude. -/
def greatestPower : Nat := 308

/-- The magnitude nearest to a power of ten, none past the largest one. -/
def tenTo? (power : Nat) : Option Magnitude :=
  ofRatio? (tenTo power) 1

/-- A magnitude times a power of ten in double arithmetic: one multiplication or
division by a power that is a double, after as many divisions by the largest such
power as a smaller exponent needs.  None if the result is past the largest
magnitude. -/
def timesTenTo? (m : Magnitude) (power : Int) : Option Magnitude :=
  if power.natAbs ≤ greatestPower then do
    let ten ← tenTo? power.natAbs
    if 0 ≤ power then m.mul? ten else m.div? ten
  else if m.significand = 0 then some m
  else if 0 ≤ power then none
  else do
    let smaller ← m.div? (← tenTo? greatestPower)
    smaller.timesTenTo? (power + greatestPower)
termination_by power.natAbs
decreasing_by simp only [greatestPower] at *; omega

end Magnitude

end ChannelRelay
