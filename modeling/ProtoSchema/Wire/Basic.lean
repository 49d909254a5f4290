/-!
# Bytes, wire types and wire errors

The vocabulary of the wire format: a message is a sequence of bytes, every record on it starts
with a tag, and the tag names one of four wire types. Reading is a function that takes the bytes
still unread and returns what it read with the bytes it left, so a reader is nothing but the
unread bytes and every law about reading is a law about lists.
-/

set_option autoImplicit false

namespace ProtoSchema

/-- Encoded bytes, first byte first. -/
abbrev Bytes := List UInt8

namespace Wire

/-- How the value of a record is framed; groups are not supported. -/
inductive WireType where
  | varint
  | fixed64
  | lengthDelimited
  | fixed32
  deriving DecidableEq, Repr, Inhabited

namespace WireType

def bits : WireType → Nat
  | varint => 0
  | fixed64 => 1
  | lengthDelimited => 2
  | fixed32 => 5

def ofBits? : Nat → Option WireType
  | 0 => some varint
  | 1 => some fixed64
  | 2 => some lengthDelimited
  | 5 => some fixed32
  | _ => none

/-- The name used in running text. -/
def name : WireType → String
  | varint => "varint"
  | fixed64 => "fixed64"
  | lengthDelimited => "length-delimited"
  | fixed32 => "fixed32"

/-- The name used where an error compares two wire types. -/
def label : WireType → String
  | varint => "Varint"
  | fixed64 => "Fixed64"
  | lengthDelimited => "LengthDelimited"
  | fixed32 => "Fixed32"

@[simp] theorem ofBits?_bits (w : WireType) : ofBits? w.bits = some w := by cases w <;> rfl

theorem bits_lt (w : WireType) : w.bits < 8 := by cases w <;> decide

theorem bits_injective {v w : WireType} (h : v.bits = w.bits) : v = w := by
  have := congrArg ofBits? h
  simpa using this

theorem ofBits?_eq_some_iff {n : Nat} {w : WireType} : ofBits? n = some w ↔ n = w.bits := by
  constructor
  · intro h
    unfold ofBits? at h
    split at h <;> first | (cases h; rfl) | cases h
  · rintro rfl
    exact ofBits?_bits w

end WireType

/-! ## Errors -/

inductive WireError where
  | truncated (needed : Nat)
  | invalidVarint
  | invalidTag (key : UInt64)
  | unknownWireType (bits : Nat)
  | wireTypeMismatch (number : Nat) (expected found : WireType)
  | invalidUtf8 (number : Nat)
  | recursionLimit (levels : Nat)
  deriving DecidableEq, Repr

def hexDigits (n : Nat) : String := String.ofList (Nat.toDigits 16 n)

def WireError.message : WireError → String
  | truncated needed => s!"unexpected end of input, needed {needed} more bytes"
  | invalidVarint => "invalid varint"
  | invalidTag key => s!"invalid tag 0x{hexDigits key.toNat}"
  | unknownWireType bits => s!"unknown wire type {bits}"
  | wireTypeMismatch number expected found =>
    s!"field {number} expects wire type {expected.label}, found {found.label}"
  | invalidUtf8 number => s!"field {number} is not valid UTF-8"
  | recursionLimit levels => s!"messages nest deeper than {levels} levels"

end Wire

end ProtoSchema
