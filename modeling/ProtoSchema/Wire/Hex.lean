import ProtoSchema.Wire.Basic

/-!
# Bytes as text

Bytes written with two digits in base sixteen each, lower case.
-/

set_option autoImplicit false

namespace ProtoSchema.Wire.Hex

/-- A number with at least the given number of digits. -/
def ofNat (digits n : Nat) : String :=
  let shown := Nat.toDigits 16 n
  String.ofList (List.replicate (digits - shown.length) '0' ++ shown)

/-- The number that digits denote. -/
def toNat (digits : String) : Nat :=
  digits.toList.foldl
    (fun n c ↦ 16 * n + (if c.isDigit then c.toNat - '0'.toNat else c.toNat - 'a'.toNat + 10)) 0

def encode (bytes : Bytes) : String := String.join (bytes.map fun b ↦ ofNat 2 b.toNat)

/-- The bytes of pairs of digits. -/
def decodeList : List Char → Bytes
  | a :: b :: rest => UInt8.ofNat (toNat (String.ofList [a, b])) :: decodeList rest
  | _ => []

/-- The bytes that a text stands for. -/
def decode (text : String) : Bytes := decodeList text.toList

end ProtoSchema.Wire.Hex
