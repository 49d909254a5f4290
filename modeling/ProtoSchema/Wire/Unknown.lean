import ProtoSchema.Wire.Payload

/-!
# Unknown fields

Records that a message does not declare are kept as the bytes they arrived in, one behind the
other, so that writing them back changes nothing.
-/

set_option autoImplicit false

namespace ProtoSchema.Wire

/-- Retained records, in the order they came. -/
structure UnknownFields where
  bytes : Bytes := []
  deriving DecidableEq, Repr, Inhabited

namespace UnknownFields

def empty : UnknownFields := ⟨[]⟩

def isEmpty (u : UnknownFields) : Bool := u.bytes.isEmpty

/-- Appends the bytes of a complete record. -/
def push (u : UnknownFields) (record : Bytes) : UnknownFields := ⟨u.bytes ++ record⟩

/-- The bytes of a varint record. -/
def varintRecord (number : Nat) (w : UInt64) : Bytes :=
  Tag.encode ⟨number, .varint⟩ ++ Varint.encode w

/-- Appends a varint record. -/
def pushVarint (u : UnknownFields) (number : Nat) (w : UInt64) : UnknownFields :=
  u.push (varintRecord number w)

/-- Splits off the first record of the bytes: its tag and what follows it. -/
def firstTag? (bytes : Bytes) : Option (Tag × Bytes) :=
  match Tag.decode bytes with
  | .error _ => none
  | .ok (tag, afterTag) =>
    match Payload.decode tag.wireType afterTag with
    | .error _ => none
    | .ok (_, rest) => some (tag, rest)

theorem firstTag?_length {bytes rest : Bytes} {t : Tag} (h : firstTag? bytes = some (t, rest)) :
    rest.length < bytes.length := by
  unfold firstTag? at h
  split at h
  · cases h
  · next tag afterTag ht =>
    split at h
    · cases h
    · next p left hp =>
      cases h
      exact Nat.lt_trans (Payload.decode_length hp) (Tag.decode_length ht)

/-- The tags of the records at the front of the bytes, up to the first malformed one. -/
def tagsOf (bytes : Bytes) : List Tag :=
  match h : firstTag? bytes with
  | none => []
  | some (tag, rest) =>
    have := firstTag?_length h
    tag :: tagsOf rest
termination_by bytes.length

def tags (u : UnknownFields) : List Tag := tagsOf u.bytes

end UnknownFields

end ProtoSchema.Wire
