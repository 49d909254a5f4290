import ProtoSchema.Floating.Shortest

/-!
# Text of floating-point numbers

Two ways of writing a number with its shortest digits: the plain style never uses an exponent and
writes whole numbers without a point, the exact style always shows that the number is a float, by a
point or by an exponent for very large and very small magnitudes.
-/

set_option autoImplicit false

namespace ProtoSchema.Floating

structure Style where
  /-- Whether a whole number ends in `.0`. -/
  keepsPoint : Bool
  /-- Whether magnitudes from `10 ^ 16` on or below `10 ^ -4` are written with an exponent. -/
  usesExponent : Bool
  deriving DecidableEq, Repr

/-- Digits with a point where needed and never an exponent. -/
def Style.plain : Style := ⟨false, false⟩

/-- Always recognisable as a float. -/
def Style.exact : Style := ⟨true, true⟩

/-- Removes trailing zeros, so that the last digit counts. -/
def Decimal.trim (d : Decimal) : Decimal :=
  if h : d.digits ≠ 0 ∧ d.digits % 10 = 0 then trim ⟨d.digits / 10, d.exponent + 1⟩ else d
termination_by d.digits
decreasing_by
  have : d.digits / 10 < d.digits := Nat.div_lt_self (by omega) (by omega)
  exact this

/-- The digits in positional notation. -/
def Decimal.positional (d : Decimal) (keepsPoint : Bool) : String :=
  let digits := toString d.digits
  -- The number of digits before the point.
  let point := (digits.length : Int) + d.exponent
  if point ≤ 0 then "0." ++ "".pushn '0' (-point).toNat ++ digits
  else if 0 ≤ d.exponent then
    digits.pushn '0' d.exponent.toNat ++ (if keepsPoint then ".0" else "")
  else (digits.take point.toNat).toString ++ "." ++ (digits.drop point.toNat).toString

/-- The digits with one digit before the point and an exponent. -/
def Decimal.scientific (d : Decimal) : String :=
  let digits := toString d.digits
  let exponent := (digits.length : Int) + d.exponent - 1
  let fraction := (digits.drop 1).toString
  let shown := (digits.take 1).toString ++ (if fraction.isEmpty then "" else "." ++ fraction)
  shown ++ "e" ++ toString exponent

/-- Whether a decimal without trailing zeros is at least `10 ^ 16` or less than `10 ^ -4`. -/
def Decimal.isExtreme (d : Decimal) : Bool :=
  let magnitude := (decimalLength d.digits : Int) + d.exponent
  decide (16 < magnitude) || decide (magnitude < -3)

def Format.render (f : Format) (style : Style) (bits : Nat) : String :=
  match f.read bits with
  | .nan => "NaN"
  | .infinite negative => if negative then "-inf" else "inf"
  | .finite negative significand exponent =>
    let body :=
      if significand = 0 then (if style.keepsPoint then "0.0" else "0")
      else
        let d := (f.shortest significand exponent).trim
        if style.usesExponent && d.isExtreme then d.scientific
        else d.positional style.keepsPoint
    if negative then "-" ++ body else body

end ProtoSchema.Floating
