import ProtoSchema.Schema.Scalar
import ProtoSchema.Value.Basic
import ProtoSchema.Wire.Payload
import ProtoSchema.Wire.ZigZag

/-!
# Scalars on the wire

Each scalar type has one way to turn a value of its kind into a payload and one way to read a value
back. Reading the narrow integers drops the upper half of a varint, so a
negative number is read the same whether it was written in five bytes or, sign-extended, in ten.
-/

set_option autoImplicit false

namespace ProtoSchema

open Wire

namespace Scalar

def toPayload? : Scalar → Value → Option Payload
  | int32, .i32 n => some (.varint n.toInt64.toUInt64)
  | sint32, .i32 n => some (.varint (ZigZag.encode32 n).toUInt64)
  | sfixed32, .i32 n => some (.fixed32 n.toUInt32)
  | int64, .i64 n => some (.varint n.toUInt64)
  | sint64, .i64 n => some (.varint (ZigZag.encode64 n))
  | sfixed64, .i64 n => some (.fixed64 n.toUInt64)
  | uint32, .u32 n => some (.varint n.toUInt64)
  | fixed32, .u32 n => some (.fixed32 n)
  | uint64, .u64 n => some (.varint n)
  | fixed64, .u64 n => some (.fixed64 n)
  | float, .f32 x => some (.fixed32 x.bits)
  | double, .f64 x => some (.fixed64 x.bits)
  | bool, .bool b => some (.varint (if b then 1 else 0))
  | string, .string s => some (.bytes s.toUTF8.toList)
  | bytes, .bytes b => some (.bytes b)
  | _, _ => none

/-- The text that bytes encode, if they are valid. -/
def textOfBytes? (b : Bytes) : Option String := String.fromUTF8? ⟨b.toArray⟩

/-- Reads a value of a scalar type, for the field with the given number. -/
def read (number : Nat) : Scalar → Bytes → Except WireError (Value × Bytes)
  | int32, input => readAs Varint.decode (fun w ↦ .i32 w.toUInt32.toInt32) input
  | sint32, input => readAs Varint.decode (fun w ↦ .i32 (ZigZag.decode32 w.toUInt32)) input
  | sfixed32, input => readAs readFixed32 (fun w ↦ .i32 w.toInt32) input
  | int64, input => readAs Varint.decode (fun w ↦ .i64 w.toInt64) input
  | sint64, input => readAs Varint.decode (fun w ↦ .i64 (ZigZag.decode64 w)) input
  | sfixed64, input => readAs readFixed64 (fun w ↦ .i64 w.toInt64) input
  | uint32, input => readAs Varint.decode (fun w ↦ .u32 w.toUInt32) input
  | fixed32, input => readAs readFixed32 .u32 input
  | uint64, input => readAs Varint.decode .u64 input
  | fixed64, input => readAs readFixed64 .u64 input
  | float, input => readAs readFixed32 (fun w ↦ .f32 ⟨w⟩) input
  | double, input => readAs readFixed64 (fun w ↦ .f64 ⟨w⟩) input
  | bool, input => readAs Varint.decode (fun w ↦ .bool (w != 0)) input
  | string, input => do
    let (b, rest) ← readLengthDelimited input
    match textOfBytes? b with
    | some s => return (.string s, rest)
    | none => throw (.invalidUtf8 number)
  | bytes, input => readAs readLengthDelimited .bytes input

def zero (s : Scalar) : Value :=
  match s.kind with
  | .i32 => .i32 0
  | .i64 => .i64 0
  | .u32 => .u32 0
  | .u64 => .u64 0
  | .f32 => .f32 ⟨0⟩
  | .f64 => .f64 ⟨0⟩
  | .bool => .bool false
  | .string => .string ""
  | .bytes => .bytes []

end Scalar

end ProtoSchema
