import ProtoSchema.Wire.Tag

/-!
# Payloads and records

The value of a record, before anybody knows which field it belongs to, is a word of one of two
widths, a varint, or a run of bytes. Skipping a value and reading it are the same act on the
input, so both are the one function `Payload.decode`; what a field makes of a payload is decided
elsewhere, without touching the input again.
-/

set_option autoImplicit false

namespace ProtoSchema.Wire

/-- A little-endian word of `n` bytes. -/
def littleEndian : (n : Nat) → Nat → Bytes
  | 0, _ => []
  | n + 1, w => UInt8.ofNat (w % 256) :: littleEndian n (w / 256)

/-- The number that a little-endian word denotes. -/
def ofLittleEndian : Bytes → Nat
  | [] => 0
  | b :: rest => b.toNat + 256 * ofLittleEndian rest

/-- Splits off `n` bytes, or says how many are missing. -/
def take (n : Nat) (bytes : Bytes) : Except WireError (Bytes × Bytes) :=
  if bytes.length < n then .error (.truncated (n - bytes.length))
  else .ok (bytes.take n, bytes.drop n)

/-! ## Reading and writing

Words of fixed width are little-endian, and a run of bytes stands behind its length. -/

/-- Reads as a reader does, and makes something of what was read. -/
def readAs {α β : Type} (reader : Bytes → Except WireError (α × Bytes)) (make : α → β)
    (bytes : Bytes) : Except WireError (β × Bytes) := do
  let (a, rest) ← reader bytes
  return (make a, rest)

def readFixed32 : Bytes → Except WireError (UInt32 × Bytes) :=
  readAs (take 4) fun word ↦ UInt32.ofNat (ofLittleEndian word)

def readFixed64 : Bytes → Except WireError (UInt64 × Bytes) :=
  readAs (take 8) fun word ↦ UInt64.ofNat (ofLittleEndian word)

/-- Reads a length and that many bytes. -/
def readLengthDelimited (bytes : Bytes) : Except WireError (Bytes × Bytes) := do
  let (length, rest) ← Varint.decode bytes
  take length.toNat rest

def writeFixed32 (w : UInt32) : Bytes := littleEndian 4 w.toNat

def writeFixed64 (w : UInt64) : Bytes := littleEndian 8 w.toNat

/-- Bytes behind their length. -/
def writeLengthDelimited (bytes : Bytes) : Bytes :=
  Varint.encode (UInt64.ofNat bytes.length) ++ bytes

/-! ## Payloads -/

/-- The uninterpreted value of a record. -/
inductive Payload where
  | varint (w : UInt64)
  | fixed64 (w : UInt64)
  | bytes (b : Bytes)
  | fixed32 (w : UInt32)
  deriving DecidableEq, Repr

namespace Payload

def wireType : Payload → WireType
  | varint _ => .varint
  | fixed64 _ => .fixed64
  | bytes _ => .lengthDelimited
  | fixed32 _ => .fixed32

def encode : Payload → Bytes
  | varint w => Varint.encode w
  | fixed64 w => writeFixed64 w
  | bytes b => writeLengthDelimited b
  | fixed32 w => writeFixed32 w

/-- Reads a payload framed as `wireType` says. -/
def decode : WireType → Bytes → Except WireError (Payload × Bytes)
  | .varint => readAs Varint.decode varint
  | .fixed64 => readAs readFixed64 fixed64
  | .lengthDelimited => readAs readLengthDelimited bytes
  | .fixed32 => readAs readFixed32 fixed32

end Payload

/-- A complete record: a field number with a payload. -/
structure Record where
  number : Nat
  payload : Payload
  deriving DecidableEq, Repr

namespace Record

def tag (r : Record) : Tag := ⟨r.number, r.payload.wireType⟩

def encode (r : Record) : Bytes := r.tag.encode ++ r.payload.encode

/-- Reads one record. -/
def decode (input : Bytes) : Except WireError (Record × Bytes) := do
  let (tag, afterTag) ← Tag.decode input
  let (payload, rest) ← Payload.decode tag.wireType afterTag
  return (⟨tag.number, payload⟩, rest)

end Record

/-! ## What a read consumes -/

theorem readAs_eq_ok {α β : Type} {reader : Bytes → Except WireError (α × Bytes)} {make : α → β}
    {bytes rest : Bytes} {b : β} :
    readAs reader make bytes = .ok (b, rest) ↔ ∃ a, reader bytes = .ok (a, rest) ∧ b = make a := by
  unfold readAs
  cases reader bytes with
  | error e => simp [bind, Except.bind]
  | ok read =>
    obtain ⟨a, left⟩ := read
    simp only [bind, Except.bind, pure, Except.pure, Except.ok.injEq, Prod.mk.injEq]
    constructor
    · rintro ⟨rfl, rfl⟩
      exact ⟨a, ⟨rfl, rfl⟩, rfl⟩
    · rintro ⟨a', ⟨rfl, rfl⟩, rfl⟩
      exact ⟨rfl, rfl⟩

theorem take_length {n : Nat} {bytes taken rest : Bytes} (h : take n bytes = .ok (taken, rest)) :
    taken.length = n ∧ bytes = taken ++ rest := by
  unfold take at h
  split at h
  · cases h
  · cases h
    exact ⟨by simp; omega, (List.take_append_drop n bytes).symm⟩

theorem length_of_take {n : Nat} {bytes taken rest : Bytes} (hn : 0 < n)
    (h : take n bytes = .ok (taken, rest)) : rest.length < bytes.length := by
  obtain ⟨hlen, rfl⟩ := take_length h
  rw [List.length_append]
  omega

theorem readLengthDelimited_length {bytes frame rest : Bytes}
    (h : readLengthDelimited bytes = .ok (frame, rest)) : rest.length < bytes.length := by
  unfold readLengthDelimited at h
  cases hv : Varint.decode bytes with
  | error e => simp [hv, bind, Except.bind] at h
  | ok p =>
    obtain ⟨length, left⟩ := p
    simp only [hv, bind, Except.bind] at h
    have h₁ := Varint.decode_length hv
    have h₂ := congrArg List.length (take_length h).2
    simp at h₂
    omega

/-- Reading a payload consumes at least one byte. -/
theorem Payload.decode_length {w : WireType} {bytes rest : Bytes} {p : Payload}
    (h : Payload.decode w bytes = .ok (p, rest)) : rest.length < bytes.length := by
  cases w with
  | varint =>
    obtain ⟨word, hword, -⟩ := readAs_eq_ok.1 h
    exact Varint.decode_length hword
  | fixed64 =>
    obtain ⟨word, hword, -⟩ := readAs_eq_ok.1 h
    obtain ⟨taken, htaken, -⟩ := readAs_eq_ok.1 hword
    exact length_of_take (by decide) htaken
  | lengthDelimited =>
    obtain ⟨frame, hframe, -⟩ := readAs_eq_ok.1 h
    exact readLengthDelimited_length hframe
  | fixed32 =>
    obtain ⟨word, hword, -⟩ := readAs_eq_ok.1 h
    obtain ⟨taken, htaken, -⟩ := readAs_eq_ok.1 hword
    exact length_of_take (by decide) htaken

end ProtoSchema.Wire
