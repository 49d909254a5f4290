import ProtoSchema.Wire.Basic

/-!
# Two's complement

Integers of any size as bytes in two's complement, most significant byte first. Writing gives the
shortest form, which for zero is one byte; reading accepts any number of bytes, and none at all is
zero.
-/

set_option autoImplicit false

namespace ProtoSchema.TwosComplement

/-- The shortest form, least significant byte first. -/
def littleEndian (n : Int) : Bytes :=
  if -128 ≤ n ∧ n < 128 then [UInt8.ofNat (n % 256).toNat]
  else UInt8.ofNat (n % 256).toNat :: littleEndian (n / 256)
termination_by n.natAbs
decreasing_by omega

def encode (n : Int) : Bytes := (littleEndian n).reverse

/-- The number that bytes denote without a sign. -/
def magnitude (bytes : Bytes) : Nat := bytes.foldl (fun n b ↦ 256 * n + b.toNat) 0

def decode (bytes : Bytes) : Int :=
  match bytes with
  | [] => 0
  | b :: _ =>
    if b.toNat < 128 then magnitude bytes
    else (magnitude bytes : Int) - (1 <<< (8 * bytes.length) : Nat)

end ProtoSchema.TwosComplement
