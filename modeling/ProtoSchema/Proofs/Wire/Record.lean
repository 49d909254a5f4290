import ProtoSchema.Proofs.Wire.Varint
import ProtoSchema.Wire.Payload

/-!
# Reading back payloads and records

A payload is read back from its bytes, and so is a record whose number may stand in a key. The one
condition is that a run of bytes is short enough for its length to fit a word, which every run
inside a real buffer is.

Bytes that are nothing but complete records, one behind the other, are what a message may retain:
`Records` says so without fixing how the varints in them were written, since bytes that came from
elsewhere are kept as they are.
-/

set_option autoImplicit false

namespace ProtoSchema.Wire

/-! ## Making something of what was read -/

section

variable {α β : Type} {reader : Bytes → Except WireError (α × Bytes)} {make : α → β}

theorem readAs_eq_error {bytes : Bytes} {e : WireError} :
    readAs reader make bytes = .error e ↔ reader bytes = .error e := by
  rw [readAs, bind_eq_error]
  exact or_iff_left fun ⟨_, _, h⟩ ↦ by cases h

theorem Yields.readAs {chunk : Bytes} {a : α} (h : Yields reader chunk a) (make : α → β) :
    Yields (readAs reader make) chunk (make a) :=
  fun rest ↦ readAs_eq_ok.2 ⟨a, h rest, rfl⟩

theorem Local.readAs (h : Local reader) (make : α → β) : Local (readAs reader make) :=
  h.bind fun a ↦ .pure (make a)

end

/-! ## Words of fixed width -/

theorem length_littleEndian (n w : Nat) : (littleEndian n w).length = n := by
  induction n generalizing w with
  | zero => rfl
  | succ n ih => rw [littleEndian, List.length_cons, ih]

theorem ofLittleEndian_littleEndian {n w : Nat} (h : w < 256 ^ n) :
    ofLittleEndian (littleEndian n w) = w := by
  induction n generalizing w with
  | zero =>
    have : w = 0 := by simpa using h
    rw [this]
    rfl
  | succ n ih =>
    have hdiv : w / 256 < 256 ^ n := by
      rw [Nat.div_lt_iff_lt_mul (by decide)]
      rwa [Nat.pow_succ] at h
    have hbyte : (UInt8.ofNat (w % 256)).toNat = w % 256 :=
      UInt8.toNat_ofNat_of_lt' (Nat.mod_lt w (by decide))
    rw [littleEndian, ofLittleEndian, ih hdiv, hbyte]
    omega

/-- Exactly the leading chunk is taken. -/
theorem take_append {n : Nat} {chunk : Bytes} (h : chunk.length = n) :
    Yields (take n) chunk chunk := by
  intro rest
  subst h
  rw [take, if_neg (by simp), List.take_left, List.drop_left]

theorem yields_writeFixed32 (w : UInt32) : Yields readFixed32 (writeFixed32 w) w := by
  have hw : w.toNat < 256 ^ 4 := w.toNat_lt
  have hread := (take_append (length_littleEndian 4 w.toNat)).readAs
    fun word ↦ UInt32.ofNat (ofLittleEndian word)
  rwa [ofLittleEndian_littleEndian hw, UInt32.ofNat_toNat] at hread

theorem yields_writeFixed64 (w : UInt64) : Yields readFixed64 (writeFixed64 w) w := by
  have hw : w.toNat < 256 ^ 8 := w.toNat_lt
  have hread := (take_append (length_littleEndian 8 w.toNat)).readAs
    fun word ↦ UInt64.ofNat (ofLittleEndian word)
  rwa [ofLittleEndian_littleEndian hw, UInt64.ofNat_toNat] at hread

/-! ## Runs of bytes -/

theorem yields_writeLengthDelimited {b : Bytes} (h : b.length < UInt64.size) :
    Yields readLengthDelimited (writeLengthDelimited b) b := by
  intro rest
  have hl : (UInt64.ofNat b.length).toNat = b.length := UInt64.toNat_ofNat_of_lt' h
  rw [readLengthDelimited, writeLengthDelimited, List.append_assoc, Varint.yields_encode, ok_bind]
  simp only [hl]
  exact take_append rfl rest

theorem length_le_writeLengthDelimited (b : Bytes) :
    b.length ≤ (writeLengthDelimited b).length := by
  rw [writeLengthDelimited, List.length_append]
  exact Nat.le_add_left _ _

/-! ## Payloads -/

theorem Payload.yields_encode {p : Payload} (h : p.encode.length < UInt64.size) :
    Yields (Payload.decode p.wireType) p.encode p := by
  cases p with
  | varint w => exact (Varint.yields_encode w).readAs varint
  | fixed64 w => exact (yields_writeFixed64 w).readAs fixed64
  | bytes b =>
    have hb := Nat.lt_of_le_of_lt (length_le_writeLengthDelimited b) h
    exact (yields_writeLengthDelimited hb).readAs bytes
  | fixed32 w => exact (yields_writeFixed32 w).readAs fixed32

theorem Payload.encode_ne_nil (p : Payload) : p.encode ≠ [] := by
  cases p with
  | varint w => exact Varint.encode_ne_nil w
  | fixed64 w => exact List.cons_ne_nil _ _
  | bytes b => exact List.append_ne_nil_of_left_ne_nil (Varint.encode_ne_nil _) _
  | fixed32 w => exact List.cons_ne_nil _ _

/-! ## Records

A record is its tag and behind it its payload. Of the tag only the number may be wrong. -/

/-- The bytes are the given records, complete and one behind the other. -/
inductive Records : Bytes → List Record → Prop
  | nil : Records [] []
  | cons {input rest : Bytes} {r : Record} {rs : List Record}
      (head : Record.decode input = .ok (r, rest)) (tail : Records rest rs) :
      Records input (r :: rs)

theorem Record.decode_eq_ok {input rest : Bytes} {r : Record} :
    Record.decode input = .ok (r, rest) ↔
      ∃ tag afterTag, Tag.decode input = .ok (tag, afterTag) ∧ tag.number = r.number ∧
        Payload.decode tag.wireType afterTag = .ok (r.payload, rest) := by
  rw [decode, bind_eq_ok]
  constructor
  · rintro ⟨⟨tag, afterTag⟩, ht, h⟩
    obtain ⟨⟨payload, left⟩, hp, h⟩ := bind_eq_ok.1 h
    cases h
    exact ⟨tag, afterTag, ht, rfl, hp⟩
  · rintro ⟨tag, afterTag, ht, hn, hp⟩
    refine ⟨(tag, afterTag), ht, ?_⟩
    simp only [hp, ok_bind, pure_eq_ok, hn]

theorem Record.decode_length {input rest : Bytes} {r : Record}
    (h : Record.decode input = .ok (r, rest)) : rest.length < input.length := by
  obtain ⟨tag, afterTag, ht, -, hp⟩ := Record.decode_eq_ok.1 h
  exact Nat.lt_trans (Payload.decode_length hp) (Tag.decode_length ht)

theorem Record.yields_encode {r : Record} (hr : r.tag.IsValid) (h : r.encode.length < UInt64.size) :
    Yields Record.decode r.encode r := by
  intro rest
  have hp : r.payload.encode.length < UInt64.size := by
    rw [encode, List.length_append] at h
    omega
  rw [Record.decode_eq_ok]
  refine ⟨r.tag, r.payload.encode ++ rest, ?_, rfl, Payload.yields_encode hp rest⟩
  rw [encode, List.append_assoc]
  exact Tag.yields_encode hr _

/-! ## Reading alike wherever a chunk stands -/

theorem local_take (n : Nat) : Local (take n) := by
  intro input chunk rest h
  obtain ⟨hlength, rfl⟩ := take_length h
  exact ⟨chunk, rfl, take_append hlength⟩

theorem local_readFixed32 : Local readFixed32 := (local_take 4).readAs _

theorem local_readFixed64 : Local readFixed64 := (local_take 8).readAs _

theorem local_readLengthDelimited : Local readLengthDelimited :=
  Varint.local_decode.bind fun length ↦ local_take length.toNat

theorem Payload.local_decode (w : WireType) : Local (Payload.decode w) := by
  cases w with
  | varint => exact Varint.local_decode.readAs _
  | fixed64 => exact local_readFixed64.readAs _
  | lengthDelimited => exact local_readLengthDelimited.readAs _
  | fixed32 => exact local_readFixed32.readAs _

theorem Record.local_decode : Local Record.decode :=
  Tag.local_decode.bind fun tag ↦ (Payload.local_decode tag.wireType).bind fun payload ↦
    .pure (⟨tag.number, payload⟩ : Record)

end ProtoSchema.Wire
