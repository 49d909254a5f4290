import ProtoSchema.Wire.Basic

/-!
# Scalar types

The scalar types of schema files. Each is carried by one wire type and read into one native kind;
types of the same kind are different encodings of the same values, so a field may be switched
between them freely.
-/

set_option autoImplicit false

namespace ProtoSchema

open Wire

/-- The native values that a scalar type is read into. -/
inductive ScalarKind where
  | i32 | i64 | u32 | u64 | f32 | f64 | bool | string | bytes
  deriving DecidableEq, Repr

def ScalarKind.name : ScalarKind → String
  | i32 => "i32"
  | i64 => "i64"
  | u32 => "u32"
  | u64 => "u64"
  | f32 => "f32"
  | f64 => "f64"
  | bool => "bool"
  | string => "string"
  | bytes => "bytes"

inductive Scalar where
  | double | float
  | int32 | int64 | uint32 | uint64 | sint32 | sint64
  | fixed32 | fixed64 | sfixed32 | sfixed64
  | bool | string | bytes
  deriving DecidableEq, Repr, Inhabited

namespace Scalar

def all : List Scalar :=
  [double, float, int32, int64, uint32, uint64, sint32, sint64, fixed32, fixed64, sfixed32,
    sfixed64, bool, string, bytes]

def keyword : Scalar → String
  | double => "double"
  | float => "float"
  | int32 => "int32"
  | int64 => "int64"
  | uint32 => "uint32"
  | uint64 => "uint64"
  | sint32 => "sint32"
  | sint64 => "sint64"
  | fixed32 => "fixed32"
  | fixed64 => "fixed64"
  | sfixed32 => "sfixed32"
  | sfixed64 => "sfixed64"
  | bool => "bool"
  | string => "string"
  | bytes => "bytes"

/-- The scalar type with the given keyword, if there is one. -/
def ofKeyword? (word : String) : Option Scalar := all.find? (·.keyword == word)

/-- The wire type of one value. -/
def wireType : Scalar → WireType
  | double | fixed64 | sfixed64 => .fixed64
  | float | fixed32 | sfixed32 => .fixed32
  | string | bytes => .lengthDelimited
  | int32 | int64 | uint32 | uint64 | sint32 | sint64 | bool => .varint

def kind : Scalar → ScalarKind
  | int32 | sint32 | sfixed32 => .i32
  | int64 | sint64 | sfixed64 => .i64
  | uint32 | fixed32 => .u32
  | uint64 | fixed64 => .u64
  | float => .f32
  | double => .f64
  | bool => .bool
  | string => .string
  | bytes => .bytes

def isPackable : Scalar → Bool
  | string | bytes => false
  | _ => true

def isMapKey : Scalar → Bool
  | double | float | bytes => false
  | _ => true

theorem mem_all (s : Scalar) : s ∈ all := by cases s <;> decide

theorem isPackable_iff (s : Scalar) : s.isPackable = true ↔ s.wireType ≠ .lengthDelimited := by
  cases s <;> simp [isPackable, wireType]

end Scalar

end ProtoSchema
