/-!
# Binary floating-point formats

A format is a number of significand bits and a range of exponents. Here the bits of a word are
read as a sign with a finite magnitude `significand * 2 ^ exponent`, an infinity or no number at
all, and an exact quotient of natural numbers is rounded to the nearest word, ties to the even
significand. All arithmetic is exact, on natural numbers.
-/

set_option autoImplicit false

namespace ProtoSchema.Floating

/-- A binary interchange format. -/
structure Format where
  /-- Bits of the significand, the leading one included. -/
  precision : Nat
  /-- Bits of the biased exponent. -/
  exponentBits : Nat
  deriving DecidableEq, Repr

namespace Format

def single : Format := ⟨24, 8⟩

def double : Format := ⟨53, 11⟩

/-- How many significands share one exponent field. -/
def spread (f : Format) : Nat := 1 <<< (f.precision - 1)

/-- The exponent field of infinities and of words that are no number. -/
def topField (f : Format) : Nat := 1 <<< f.exponentBits - 1

/-- The exponent of the smallest positive number. -/
def minExponent (f : Format) : Int :=
  (3 : Int) - (1 <<< (f.exponentBits - 1) : Nat) - f.precision

/-- The bits of positive infinity. -/
def infinityBits (f : Format) : Nat := f.topField * f.spread

/-- The weight of the sign bit. -/
def signBit (f : Format) : Nat := 1 <<< (f.precision + f.exponentBits - 1)

end Format

/-- What a word denotes. -/
inductive Reading where
  | nan
  | infinite (negative : Bool)
  | finite (negative : Bool) (significand : Nat) (exponent : Int)
  deriving DecidableEq, Repr

/-- Reads the bits of a word. -/
def Format.read (f : Format) (bits : Nat) : Reading :=
  let negative := decide (f.signBit ≤ bits)
  let magnitude := bits % f.signBit
  let field := magnitude / f.spread
  let fraction := magnitude % f.spread
  if field = f.topField then if fraction = 0 then .infinite negative else .nan
  else if field = 0 then .finite negative fraction f.minExponent
  else .finite negative (f.spread + fraction) (f.minExponent + (field - 1 : Nat))

/-! ## Rounding

A quotient of natural numbers is brought to the exponent at which its whole part is a significand,
and is rounded there. -/

/-- The quotient rounded to the nearest natural number, a half to the even one. -/
def roundHalfEven (num den : Nat) : Nat :=
  let quotient := num / den
  let rest := num % den
  if 2 * rest < den then quotient
  else if den < 2 * rest then quotient + 1
  else quotient + quotient % 2

/-- A power of two times a number, split into a numerator and a denominator. -/
def scaleUp (n : Nat) (exponent : Int) : Nat := n <<< exponent.toNat

/-- The exponent at which the quotient has exactly `precision` bits before the point, but never
less than the smallest exponent of the format. -/
def Format.exponentOf (f : Format) (num den : Nat) : Int :=
  let guess : Int := (num.log2 : Int) - den.log2 - f.precision
  let large := decide (scaleUp (den <<< f.precision) guess ≤ scaleUp num (-guess))
  max f.minExponent (if large then guess + 1 else guess)

/-- The bits of the number nearest to `num / den`; what is too large becomes infinity. -/
def Format.round (f : Format) (num den : Nat) : Nat :=
  if num = 0 then 0
  else
    let q := f.exponentOf num den
    let significand := roundHalfEven (scaleUp num (-q)) (scaleUp den q)
    min f.infinityBits ((q - f.minExponent).toNat * f.spread + significand)

def Format.roundSigned (f : Format) (negative : Bool) (num den : Nat) : Nat :=
  (if negative then f.signBit else 0) + f.round num den

/-- Moves the bits of one format to the nearest word of another. A word that is no number keeps
its sign and the leading bits of its payload, and is made quiet. -/
def Format.convert (source target : Format) (bits : Nat) : Nat :=
  match source.read bits with
  | .infinite negative => (if negative then target.signBit else 0) + target.infinityBits
  | .finite negative significand exponent =>
    target.roundSigned negative (scaleUp significand exponent) (scaleUp 1 (-exponent))
  | .nan =>
    let quiet := target.spread / 2
    let payload := (bits % source.spread) >>> (source.precision - target.precision)
    (if source.signBit ≤ bits then target.signBit else 0) + target.infinityBits
      + (quiet + payload % quiet)

/-- Equality of numbers: the two zeros are equal and a word that is no number equals nothing. -/
def Format.numericallyEqual (f : Format) (a b : Nat) : Bool :=
  match f.read a, f.read b with
  | .nan, _ => false
  | _, .nan => false
  | _, _ => a == b || (a % f.signBit == 0 && b % f.signBit == 0)

end ProtoSchema.Floating
