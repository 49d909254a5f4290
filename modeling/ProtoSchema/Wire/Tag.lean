import ProtoSchema.Wire.Varint

/-!
# Tags

The key in front of a record packs a field number and a wire type into one word. Numbers run from
1 to `2 ^ 29 - 1`; a key outside that range is refused before its wire type is looked at.
-/

set_option autoImplicit false

namespace ProtoSchema.Wire

/-- The largest field number that a key can carry. -/
def maxFieldNumber : Nat := 0x1FFFFFFF

/-- A field number with the wire type of its value. -/
structure Tag where
  number : Nat
  wireType : WireType
  deriving DecidableEq, Repr

namespace Tag

/-- The key as a word: the wire type in the low three bits, the number above them. -/
def key (t : Tag) : UInt64 := UInt64.ofNat (t.number * 8 + t.wireType.bits)

def ofKey (key : UInt64) : Except WireError Tag :=
  let number := key.toNat / 8
  if number = 0 ∨ maxFieldNumber < number then .error (.invalidTag key)
  else
    match WireType.ofBits? (key.toNat % 8) with
    | some wireType => .ok ⟨number, wireType⟩
    | none => .error (.unknownWireType (key.toNat % 8))

def encode (t : Tag) : Bytes := Varint.encode t.key

/-- Reads a key and splits it. -/
def decode (bytes : Bytes) : Except WireError (Tag × Bytes) := do
  let (key, rest) ← Varint.decode bytes
  return (← ofKey key, rest)

/-- Refuses a record whose wire type is not the one its field is declared with. -/
def expect (t : Tag) (expected : WireType) : Except WireError Unit :=
  if t.wireType = expected then .ok ()
  else .error (.wireTypeMismatch t.number expected t.wireType)

/-- Reading a tag consumes at least one byte. -/
theorem decode_length {bytes rest : Bytes} {t : Tag} (h : decode bytes = .ok (t, rest)) :
    rest.length < bytes.length := by
  unfold decode at h
  cases hv : Varint.decode bytes with
  | error e => simp [hv, bind, Except.bind] at h
  | ok p =>
    obtain ⟨key, left⟩ := p
    cases hk : ofKey key with
    | error e => simp [hv, hk, bind, Except.bind] at h
    | ok t' =>
      simp [hv, hk, bind, Except.bind, pure, Except.pure] at h
      rw [← h.2]
      exact Varint.decode_length hv

end Tag

end ProtoSchema.Wire
