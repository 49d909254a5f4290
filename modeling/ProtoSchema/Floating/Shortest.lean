import ProtoSchema.Floating.Format

/-!
# Shortest decimals

The shortest decimal that reads back as a given binary number: of all decimals between the two
midpoints to the neighbouring numbers, one with the fewest digits, and of those the nearest to the
number. A midpoint itself counts when the significand is even, because ties are read to even; of
two equally near decimals the larger magnitude wins.
-/

set_option autoImplicit false

namespace ProtoSchema.Floating

/-- A decimal `digits * 10 ^ exponent`. -/
structure Decimal where
  digits : Nat
  exponent : Int
  deriving DecidableEq, Repr

/-- The number of decimal digits of a number; zero has none. -/
def decimalLength (n : Nat) : Nat :=
  if n = 0 then 0 else decimalLength (n / 10) + 1
termination_by n
decreasing_by omega

/-- The reals that read back as one number: between `low` and `high` in units of `2 ^ exponent`,
around `value`, with both ends exactly when `closed`. -/
structure Interval where
  low : Nat
  value : Nat
  high : Nat
  exponent : Int
  closed : Bool
  deriving DecidableEq, Repr

/-! ## Decimals in an interval

Grids of decimals are tried from the coarsest one on. The first that has a decimal in the interval
has it with the fewest digits. -/

/-- The interval of a positive finite number. The gap below a power of two is half the gap above
it, except at the bottom of the range. -/
def Format.interval (f : Format) (significand : Nat) (exponent : Int) : Interval :=
  -- Quarters of a unit make both midpoints whole.
  let below := if significand = f.spread ∧ f.minExponent < exponent then 1 else 2
  { low := 4 * significand - below
    value := 4 * significand
    high := 4 * significand + 2
    exponent := exponent - 2
    closed := significand % 2 == 0 }

/-- Brings `n * 2 ^ binary` over the unit `10 ^ decimal` as a quotient. -/
def overPower (n : Nat) (binary decimal : Int) : Nat × Nat :=
  ((n <<< binary.toNat) * Nat.pow 10 (-decimal).toNat,
    (1 <<< (-binary).toNat) * Nat.pow 10 decimal.toNat)

namespace Interval

/-- The exponent `k` with `10 ^ (k - 1) ≤ value < 10 ^ k`. -/
def magnitude (i : Interval) : Int :=
  let (num, den) := overPower i.value i.exponent 0
  if den ≤ num then decimalLength (num / den)
  else
    let shift := decimalLength den - decimalLength num
    if den ≤ num * Nat.pow 10 shift then 1 - (shift : Int) else -(shift : Int)

/-- Whether `n * 10 ^ decimal` lies in the interval. -/
def contains (i : Interval) (n : Nat) (decimal : Int) : Bool :=
  let (low, den) := overPower i.low i.exponent decimal
  let (high, _) := overPower i.high i.exponent decimal
  if i.closed then low ≤ n * den && n * den ≤ high else low < n * den && n * den < high

/-- The value's neighbour on the grid of multiples of `10 ^ decimal` that stands for it, if one of
the two does. -/
def onGrid? (i : Interval) (decimal : Int) : Option Nat :=
  let (num, den) := overPower i.value i.exponent decimal
  let below := num / den
  match i.contains below decimal, i.contains (below + 1) decimal with
  | true, true => some (if 2 * (num % den) < den then below else below + 1)
  | true, false => some below
  | false, true => some (below + 1)
  | false, false => none

/-- The first grid with a hit, coarse grids first. -/
def firstHit (i : Interval) (magnitude : Int) : (fuel count : Nat) → Decimal
  | 0, count => ⟨i.value, magnitude - count⟩
  | fuel + 1, count =>
    match i.onGrid? (magnitude - count) with
    | some digits => ⟨digits, magnitude - count⟩
    | none => firstHit i magnitude fuel (count + 1)

end Interval

/-- Seventeen digits tell any two numbers of at most 53 bits apart. -/
def maxDigits : Nat := 17

/-- The shortest decimal of a positive finite number. -/
def Format.shortest (f : Format) (significand : Nat) (exponent : Int) : Decimal :=
  let i := f.interval significand exponent
  i.firstHit i.magnitude maxDigits 1

end ProtoSchema.Floating
