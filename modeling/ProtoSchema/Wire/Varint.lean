import ProtoSchema.Wire.Basic

/-!
# Varints

A varint holds a 64-bit word in base 128, least significant group first; every byte but the last
has its top bit set. Writing always produces the shortest form. Reading accepts any form of at
most ten bytes whose value fits the word, and tells apart input that ends too early from input
that no continuation could repair.
-/

set_option autoImplicit false

namespace ProtoSchema.Wire.Varint

/-- The shortest base-128 form of a number. -/
def encodeNat (n : Nat) : Bytes :=
  if n < 128 then [UInt8.ofNat n]
  else UInt8.ofNat (n % 128 + 128) :: encodeNat (n / 128)
termination_by n
decreasing_by omega

/-- The varint of a word. -/
def encode (w : UInt64) : Bytes := encodeNat w.toNat

/-- Reads at most `room` groups; a byte without its top bit ends the number. -/
def decodeGroups : (room : Nat) → Bytes → Option (Nat × Bytes)
  | 0, _ => none
  | _ + 1, [] => none
  | room + 1, b :: rest =>
    if b.toNat < 128 then some (b.toNat, rest)
    else (decodeGroups room rest).map fun (high, left) ↦ (b.toNat - 128 + 128 * high, left)

/-- Whether every byte asks for another one. -/
def allContinue (bytes : Bytes) : Bool := bytes.all fun b ↦ 128 ≤ b.toNat

/-- Reads a varint. Input of fewer than ten bytes that all ask for another is truncated; any other
input without a terminated 64-bit value in its first ten bytes is invalid. -/
def decode (bytes : Bytes) : Except WireError (UInt64 × Bytes) :=
  if bytes.length < 10 && allContinue bytes then .error (.truncated 1)
  else
    match decodeGroups 10 bytes with
    | some (n, rest) =>
      if n < UInt64.size then .ok (UInt64.ofNat n, rest) else .error .invalidVarint
    | none => .error .invalidVarint

theorem decodeGroups_length {room : Nat} {bytes rest : Bytes} {n : Nat}
    (h : decodeGroups room bytes = some (n, rest)) : rest.length < bytes.length := by
  induction room generalizing bytes n with
  | zero => simp [decodeGroups] at h
  | succ room ih =>
    cases bytes with
    | nil => simp [decodeGroups] at h
    | cons b tail =>
      rw [decodeGroups] at h
      split at h
      · cases h; simp
      · obtain ⟨⟨high, left⟩, h₁, h₂⟩ := Option.map_eq_some_iff.1 h
        cases h₂
        have := ih h₁
        simp; omega

/-- Reading a varint consumes at least one byte. -/
theorem decode_length {bytes rest : Bytes} {w : UInt64} (h : decode bytes = .ok (w, rest)) :
    rest.length < bytes.length := by
  unfold decode at h
  split at h
  · cases h
  · split at h
    · next n r hg =>
      split at h
      · cases h; exact decodeGroups_length hg
      · cases h
    · cases h

end ProtoSchema.Wire.Varint
