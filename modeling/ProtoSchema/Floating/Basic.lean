import ProtoSchema.Floating.Text

/-!
# Floating-point values

Values of the two floating types are kept as their bits, so that equality of values is equality
of bits and a value survives the wire unchanged. Numeric equality, which identifies the zeros and
separates every word that is no number even from itself, is a function of its own.
-/

set_option autoImplicit false

namespace ProtoSchema

open Floating

structure Binary32 where
  bits : UInt32
  deriving DecidableEq, Repr, Inhabited

structure Binary64 where
  bits : UInt64
  deriving DecidableEq, Repr, Inhabited

namespace Binary32

/-- Equality of numbers. -/
def numericallyEqual (a b : Binary32) : Bool :=
  Format.single.numericallyEqual a.bits.toNat b.bits.toNat

/-- The plain text of a value. -/
def plain (a : Binary32) : String := Format.single.render .plain a.bits.toNat

end Binary32

namespace Binary64

/-- Equality of numbers. -/
def numericallyEqual (a b : Binary64) : Bool :=
  Format.double.numericallyEqual a.bits.toNat b.bits.toNat

/-- What the word denotes. -/
def read (a : Binary64) : Reading := Format.double.read a.bits.toNat

/-- The plain text of a value. -/
def plain (a : Binary64) : String := Format.double.render .plain a.bits.toNat

/-- The text of a value that shows it to be a float. -/
def exact (a : Binary64) : String := Format.double.render .exact a.bits.toNat

/-- The nearest 32-bit value. -/
def toBinary32 (a : Binary64) : Binary32 :=
  ⟨UInt32.ofNat (Format.double.convert Format.single a.bits.toNat)⟩

def ofInt (n : Int) : Binary64 :=
  ⟨UInt64.ofNat (Format.double.roundSigned (decide (n < 0)) n.natAbs 1)⟩

/-- The value nearest to a decimal. -/
def ofDecimal (d : Decimal) : Binary64 :=
  ⟨UInt64.ofNat
    (Format.double.round (d.digits * Nat.pow 10 d.exponent.toNat)
      (Nat.pow 10 (-d.exponent).toNat))⟩

/-- The value with the other sign. -/
def neg (a : Binary64) : Binary64 := ⟨a.bits ^^^ 0x8000000000000000⟩

/-- Whether the value is a number and neither infinity. -/
def isFinite (a : Binary64) : Bool :=
  match a.read with
  | .finite .. => true
  | _ => false

end Binary64

end ProtoSchema
