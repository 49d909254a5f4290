import ProtoSchema.Codec.Encode
import ProtoSchema.Proofs.Value.Shape
import ProtoSchema.Proofs.Wire.Record

/-!
# Reading back scalars

A value of a scalar type is read back from its payload, for all fifteen types. The two zigzag types
rest on the bits of an interleaved word, which are those of the integer, one place up and flipped
where its sign bit is set; the narrow integers rest on sign extension, which truncation undoes.
Conversely, whatever is read as a scalar is a payload of the type's wire type.

What is read need not be what would be written. The narrow integers take any word, so of each value
there are many forms; those that matter are the two of a negative number, which is as wide as its
type for some writers and as wide as a word for others.
-/

set_option autoImplicit false

namespace ProtoSchema

open Wire

/-! ## Zigzag

Bits are compared one by one. -/

namespace Wire.ZigZag

theorem getLsbD_interleave {w : Nat} (x : BitVec w) {i : Nat} (hi : i < w) :
    (interleave x).getLsbD i = ((decide (i ≠ 0) && x.getLsbD (i - 1)) ^^ x.msb) := by
  rw [interleave, BitVec.getLsbD_xor, BitVec.getLsbD_shiftLeft, BitVec.getLsbD_sshiftRight,
    BitVec.msb_eq_getLsbD_last]
  rcases Nat.eq_zero_or_pos i with rfl | h0
  · have hw : w ≠ 0 := by omega
    simp [hi, hw]
  · have hlast : ¬(w - 1 + i < w) := by omega
    have h1 : i ≠ 0 := by omega
    simp [hi, hlast, h1]

theorem and_one_eq {w : Nat} (y : BitVec w) :
    y &&& 1#w = if y.getLsbD 0 then 1#w else 0#w := by
  apply BitVec.eq_of_getLsbD_eq
  intro i hi
  rw [BitVec.getLsbD_and, BitVec.getLsbD_one]
  by_cases h0 : i = 0
  · subst h0
    split <;> simp_all
  · split <;> simp [h0, BitVec.getLsbD_one]

theorem getLsbD_separate {w : Nat} (x : BitVec w) {i : Nat} (hi : i < w) :
    (separate x).getLsbD i = (x.getLsbD (i + 1) ^^ x.getLsbD 0) := by
  have hneg : (-(x &&& 1#w)).getLsbD i = x.getLsbD 0 := by
    rw [and_one_eq]
    cases x.getLsbD 0 <;> simp [BitVec.neg_one_eq_allOnes, hi]
  rw [separate, BitVec.getLsbD_xor, BitVec.getLsbD_ushiftRight, hneg, Nat.add_comm 1 i]

theorem separate_interleave {w : Nat} (x : BitVec w) : separate (interleave x) = x := by
  apply BitVec.eq_of_getLsbD_eq
  intro i hi
  have h0 : (interleave x).getLsbD 0 = x.msb := by
    rw [getLsbD_interleave x (by omega)]
    simp
  rw [getLsbD_separate _ hi, h0]
  by_cases hl : i + 1 < w
  · rw [getLsbD_interleave x hl]
    simp
  · have hlast : i = w - 1 := by omega
    rw [BitVec.getLsbD_of_ge _ _ (by omega), BitVec.msb_eq_getLsbD_last, hlast]
    simp

theorem interleave_separate {w : Nat} (x : BitVec w) : interleave (separate x) = x := by
  apply BitVec.eq_of_getLsbD_eq
  intro i hi
  have hsign : (separate x).msb = x.getLsbD 0 := by
    rw [BitVec.msb_eq_getLsbD_last, getLsbD_separate x (by omega),
      BitVec.getLsbD_of_ge _ _ (by omega), Bool.false_xor]
  rw [getLsbD_interleave _ hi, hsign]
  rcases Nat.eq_zero_or_pos i with rfl | h0
  · simp
  · have hback : i - 1 + 1 = i := by omega
    rw [getLsbD_separate x (by omega), hback]
    simp [Nat.ne_of_gt h0]

theorem decode32_encode32 (n : Int32) : decode32 (encode32 n) = n := by
  rw [decode32, encode32, separate_interleave]
  rfl

theorem decode64_encode64 (n : Int64) : decode64 (encode64 n) = n := by
  rw [decode64, encode64, separate_interleave]
  rfl

theorem encode32_decode32 (w : UInt32) : encode32 (decode32 w) = w := by
  rw [encode32, decode32]
  exact congrArg UInt32.ofBitVec (interleave_separate w.toBitVec)

end Wire.ZigZag

/-- Truncation undoes sign extension. -/
theorem toInt32_toInt64 (n : Int32) : n.toInt64.toUInt64.toUInt32.toInt32 = n := by
  apply Int32.toBitVec_inj.1
  change BitVec.setWidth 32 (BitVec.signExtend 64 n.toBitVec) = n.toBitVec
  apply BitVec.eq_of_getLsbD_eq
  intro i hi
  have h64 : i < 64 := by omega
  rw [BitVec.getLsbD_setWidth, BitVec.getLsbD_signExtend]
  simp [hi, h64]

/-! ## Text -/

private theorem toList_loop (b : ByteArray) (i : Nat) (read : List UInt8) :
    ByteArray.toList.loop b i read = read.reverse ++ b.data.toList.drop i := by
  fun_induction ByteArray.toList.loop b i read with
  | case1 i read h ih =>
    have hlt : i < b.data.toList.length := h
    have hget : b.get! i = b.data.toList[i] := getElem!_pos b.data i h
    rw [ih, List.drop_eq_getElem_cons hlt, hget,
      List.reverse_cons, List.append_assoc, List.singleton_append]
  | case2 i read h =>
    rw [List.drop_of_length_le (Nat.le_of_not_lt h), List.append_nil]

theorem textOfBytes?_toUTF8 (s : String) : Scalar.textOfBytes? s.toUTF8.toList = some s := by
  have hl : s.toUTF8.toList = s.toByteArray.data.toList := toList_loop s.toByteArray 0 []
  rw [Scalar.textOfBytes?, hl, Array.toArray_toList]
  exact dif_pos s.isValidUTF8

/-! ## Scalars

A kind may be that of several scalar types, but each of these has one kind. A value of another kind
has no payload. -/

namespace Scalar

theorem wireType_of_toPayload? {s : Scalar} {v : Value} {p : Payload}
    (h : s.toPayload? v = some p) : p.wireType = s.wireType := by
  cases s <;> cases v <;> cases h <;> rfl

theorem yields_read {s : Scalar} {v : Value} {p : Payload} (number : Nat)
    (h : s.toPayload? v = some p) (hl : p.encode.length < UInt64.size) :
    Yields (s.read number) p.encode v := by
  intro rest
  cases s <;> cases v <;> cases h
  case double.f64.refl x => rw [read, Payload.encode, (yields_writeFixed64 _).readAs]
  case float.f32.refl x => rw [read, Payload.encode, (yields_writeFixed32 _).readAs]
  case int32.i32.refl n =>
    rw [read, Payload.encode, (Varint.yields_encode _).readAs, toInt32_toInt64]
  case int64.i64.refl n =>
    rw [read, Payload.encode, (Varint.yields_encode _).readAs, Int64.toInt64_toUInt64]
  case uint32.u32.refl n =>
    rw [read, Payload.encode, (Varint.yields_encode _).readAs, UInt32.toUInt32_toUInt64]
  case uint64.u64.refl n => exact (Varint.yields_encode _).readAs _ rest
  case sint32.i32.refl n =>
    rw [read, Payload.encode, (Varint.yields_encode _).readAs, UInt32.toUInt32_toUInt64,
      ZigZag.decode32_encode32]
  case sint64.i64.refl n =>
    rw [read, Payload.encode, (Varint.yields_encode _).readAs, ZigZag.decode64_encode64]
  case fixed32.u32.refl n => exact (yields_writeFixed32 _).readAs _ rest
  case fixed64.u64.refl n => exact (yields_writeFixed64 _).readAs _ rest
  case sfixed32.i32.refl n =>
    rw [read, Payload.encode, (yields_writeFixed32 _).readAs, Int32.toInt32_toUInt32]
  case sfixed64.i64.refl n =>
    rw [read, Payload.encode, (yields_writeFixed64 _).readAs, Int64.toInt64_toUInt64]
  case bool.bool.refl b =>
    rw [read, Payload.encode, (Varint.yields_encode _).readAs]
    cases b <;> rfl
  case string.string.refl t =>
    have hb := Nat.lt_of_le_of_lt (length_le_writeLengthDelimited _) hl
    rw [read, Payload.encode, yields_writeLengthDelimited hb, ok_bind]
    simp only [textOfBytes?_toUTF8, pure_eq_ok]
  case bytes.bytes.refl b =>
    have hb := Nat.lt_of_le_of_lt (length_le_writeLengthDelimited _) hl
    exact (yields_writeLengthDelimited hb).readAs _ rest

theorem kind?_zero (s : Scalar) : s.zero.kind? = some s.kind := by
  cases s <;> rfl

/-- The values of a scalar type's kind are those that have a payload. -/
theorem exists_toPayload?_iff {s : Scalar} {v : Value} :
    (∃ payload, s.toPayload? v = some payload) ↔ v.kind? = some s.kind := by
  cases s <;> cases v <;> simp [toPayload?, Value.kind?, kind]

theorem eq_zero_of_isZero {s : Scalar} {v : Value} {payload : Payload}
    (h : s.toPayload? v = some payload) (hz : v.isZero = true) : v = s.zero := by
  cases s <;> cases v <;> cases h
  case double.f64.refl x => exact congrArg (Value.f64 ⟨·⟩) (eq_of_beq hz)
  case float.f32.refl x => exact congrArg (Value.f32 ⟨·⟩) (eq_of_beq hz)
  all_goals simp_all [Value.isZero, Scalar.zero, Scalar.kind]

/-- Of the values of a kind, only one counts as zero. -/
theorem eq_zero_of_kind {s : Scalar} {v : Value} (hkind : v.kind? = some s.kind)
    (hzero : v.isZero = true) : v = s.zero := by
  obtain ⟨payload, hpayload⟩ := exists_toPayload?_iff.2 hkind
  exact eq_zero_of_isZero hpayload hzero

theorem exists_of_kind (k : ScalarKind) : ∃ s : Scalar, s.kind = k := by
  cases k with
  | i32 => exact ⟨.int32, rfl⟩
  | i64 => exact ⟨.int64, rfl⟩
  | u32 => exact ⟨.uint32, rfl⟩
  | u64 => exact ⟨.uint64, rfl⟩
  | f32 => exact ⟨.float, rfl⟩
  | f64 => exact ⟨.double, rfl⟩
  | bool => exact ⟨.bool, rfl⟩
  | string => exact ⟨.string, rfl⟩
  | bytes => exact ⟨.bytes, rfl⟩

/-! ## Reading any payload -/

section

variable {input rest : Bytes} {v : Value}

/-- **Scalars are read from payloads.** Whatever a scalar type reads is a payload of its wire type,
and the value is of its kind. -/
theorem exists_payload_of_read {s : Scalar} {number : Nat}
    (h : s.read number input = .ok (v, rest)) :
    v.kind? = some s.kind ∧ ∃ payload, Payload.decode s.wireType input = .ok (payload, rest) := by
  cases s with
  | string =>
    obtain ⟨⟨b, left⟩, hb, h⟩ := bind_eq_ok.1 h
    dsimp only at h
    split at h
    · obtain ⟨rfl, rfl⟩ := Prod.mk.inj (Except.ok.inj h)
      exact ⟨rfl, .bytes b, readAs_eq_ok.2 ⟨b, hb, rfl⟩⟩
    · cases h
  | bytes | sfixed32 | fixed32 | float | sfixed64 | fixed64 | double | int32 | int64 | uint32
  | uint64 | sint32 | sint64 | bool =>
    rw [read, readAs_eq_ok] at h
    obtain ⟨a, ha, rfl⟩ := h
    exact ⟨rfl, _, readAs_eq_ok.2 ⟨a, ha, rfl⟩⟩

end

/-! ## Narrow integers

A word is truncated, whatever stands in its upper half. Both forms of a negative number have the
same lower half. -/

section

variable {input rest : Bytes} {w : UInt64}

/-- The narrow integers take any word and keep its lower half. -/
theorem read_of_decode (number : Nat) (h : Varint.decode input = .ok (w, rest)) :
    uint32.read number input = .ok (.u32 w.toUInt32, rest) ∧
      int32.read number input = .ok (.i32 w.toUInt32.toInt32, rest) ∧
      sint32.read number input = .ok (.i32 (ZigZag.decode32 w.toUInt32), rest) := by
  simp only [read, readAs_eq_ok]
  exact ⟨⟨w, h, rfl⟩, ⟨w, h, rfl⟩, w, h, rfl⟩

theorem read_int32 (number : Nat) (n : Int32) (rest : Bytes) :
    int32.read number (Varint.encode n.toUInt32.toUInt64 ++ rest) = .ok (.i32 n, rest) ∧
      int32.read number (Varint.encode n.toInt64.toUInt64 ++ rest) = .ok (.i32 n, rest) := by
  constructor
  · rw [(read_of_decode number (Varint.yields_encode _ rest)).2.1, UInt32.toUInt32_toUInt64,
      Int32.toInt32_toUInt32]
  · rw [(read_of_decode number (Varint.yields_encode _ rest)).2.1, toInt32_toInt64]

theorem length_encode_toUInt32 {n : Int32} (h : n < 0) :
    (Varint.encode n.toUInt32.toUInt64).length = 5 := by
  have hsign : 2 ^ 32 ≤ 2 * n.toUInt32.toNat :=
    BitVec.toInt_neg_iff.1 (Int32.lt_iff_toInt_lt.1 h)
  have hlt : n.toUInt32.toNat < 2 ^ 32 := n.toUInt32.toNat_lt
  apply Varint.length_encode
  · rw [UInt32.toNat_toUInt64]
    omega
  · rw [UInt32.toNat_toUInt64]
    omega

theorem length_encode_toInt64 {n : Int32} (h : n < 0) :
    (Varint.encode n.toInt64.toUInt64).length = 10 := by
  have hneg : n.toInt64.toInt < 0 := by
    rw [Int32.toInt_toInt64]
    exact Int32.lt_iff_toInt_lt.1 h
  have hsign : 2 ^ 64 ≤ 2 * n.toInt64.toUInt64.toNat := BitVec.toInt_neg_iff.1 hneg
  have hlt : n.toInt64.toUInt64.toNat < 2 ^ 64 := n.toInt64.toUInt64.toNat_lt
  apply Varint.length_encode <;> omega

end

/-! ## The codec -/

theorem exists_writeScalar (m : MessageMarshaller) (plan : Plan) {s : Scalar} {v : Value}
    (h : v.kind? = some s.kind) :
    ∃ b, m.writeScalar plan s v = .ok b ∧ (b.length < UInt64.size →
      ∀ number rest, s.read number (b ++ rest) = .ok (v, rest)) := by
  obtain ⟨payload, hpayload⟩ := exists_toPayload?_iff.2 h
  refine ⟨payload.encode, ?_, fun hl number rest ↦ yields_read number hpayload hl rest⟩
  rw [MessageMarshaller.writeScalar, hpayload]

/-- **The scalar codec.** Every value of a scalar type's kind is written, and is read back whatever
stands behind it, floats by their bits. The narrow integers take any varint and keep the lower half
of the word, so a negative number is read the same from five bytes and, sign-extended, from ten.
Whatever a scalar type reads, skipping a value of its wire type leaves the same bytes. -/
theorem faithful_codec :
    (∀ (m : MessageMarshaller) (plan : Plan) (s : Scalar) (v : Value), v.kind? = some s.kind →
      ∃ b, m.writeScalar plan s v = .ok b ∧ (b.length < UInt64.size →
        ∀ number rest, s.read number (b ++ rest) = .ok (v, rest))) ∧
    (∀ (number : Nat) (input rest : Bytes) (w : UInt64), Varint.decode input = .ok (w, rest) →
      ∃ low : UInt32, low.toNat = w.toNat % 2 ^ 32 ∧
        uint32.read number input = .ok (.u32 low, rest) ∧
        (∃ n : Int32, n.toUInt32 = low ∧ int32.read number input = .ok (.i32 n, rest)) ∧
        ∃ n : Int32, ZigZag.encode32 n = low ∧ sint32.read number input = .ok (.i32 n, rest)) ∧
    (∀ n : Int32, n < 0 →
      (Varint.encode n.toUInt32.toUInt64).length = 5 ∧
        (Varint.encode n.toInt64.toUInt64).length = 10 ∧ ∀ number rest,
          int32.read number (Varint.encode n.toUInt32.toUInt64 ++ rest) = .ok (.i32 n, rest) ∧
          int32.read number (Varint.encode n.toInt64.toUInt64 ++ rest) = .ok (.i32 n, rest)) ∧
    ∀ (s : Scalar) (number : Nat) (input rest : Bytes) (v : Value),
      s.read number input = .ok (v, rest) →
        ∃ payload, Payload.decode s.wireType input = .ok (payload, rest) := by
  refine ⟨fun m plan s v hkind ↦ exists_writeScalar m plan hkind, ?_, ?_, ?_⟩
  · intro number input rest w h
    obtain ⟨huint, hint, hsint⟩ := read_of_decode number h
    exact ⟨w.toUInt32, UInt64.toNat_toUInt32 w, huint,
      ⟨w.toUInt32.toInt32, UInt32.toUInt32_toInt32 _, hint⟩,
      ⟨ZigZag.decode32 w.toUInt32, ZigZag.encode32_decode32 _, hsint⟩⟩
  · intro n hn
    exact ⟨length_encode_toUInt32 hn, length_encode_toInt64 hn,
      fun number rest ↦ read_int32 number n rest⟩
  · intro s number input rest v h
    exact (exists_payload_of_read h).2

/-- Minus three is read back; of a word that exceeds 32 bits the lower half is read; and two counts
as true, in a byte that is skipped alike. -/
theorem faithful_codec_narrow :
    (Value.i32 (-3)).kind? = some sint32.kind ∧
    (∀ (m : MessageMarshaller) (plan : Plan), ∃ b,
      m.writeScalar plan sint32 (.i32 (-3)) = .ok b ∧ b.length < UInt64.size ∧
        sint32.read 1 (b ++ [9]) = .ok (.i32 (-3), [9])) ∧
    Varint.decode [0x87, 0x80, 0x80, 0x80, 0x50] = .ok (0x500000007, []) ∧
    (∃ low : UInt32, low.toNat = 7 ∧
      uint32.read 1 [0x87, 0x80, 0x80, 0x80, 0x50] = .ok (.u32 low, [])) ∧
    (-3 : Int32) < 0 ∧ (Varint.encode (-3 : Int32).toInt64.toUInt64).length = 10 ∧
    bool.read 1 [2, 9] = .ok (.bool true, [9]) ∧
    ∃ payload, Payload.decode .varint [2, 9] = .ok (payload, [9]) := by
  obtain ⟨hback, hnarrow, hnegative, hskip⟩ := faithful_codec
  have hword : Varint.decode [0x87, 0x80, 0x80, 0x80, 0x50] = .ok (0x500000007, []) := by
    decide +kernel
  have hneg : (-3 : Int32) < 0 := by decide
  have hread : bool.read 1 [2, 9] = .ok (.bool true, [9]) := rfl
  refine ⟨rfl, fun m plan ↦ ?_, hword, ?_, hneg, (hnegative _ hneg).2.1, hread,
    hskip _ _ _ _ _ hread⟩
  · obtain ⟨b, hb, hread⟩ := hback m plan sint32 (.i32 (-3)) rfl
    have hl : b.length < UInt64.size := by
      obtain rfl := Except.ok.inj hb
      exact Nat.lt_of_le_of_lt (Varint.length_encode_le _) (by decide)
    exact ⟨b, hb, hl, hread hl 1 [9]⟩
  · obtain ⟨low, hlow, huint, -⟩ := hnarrow 1 _ _ _ hword
    exact ⟨low, hlow, huint⟩

end Scalar

end ProtoSchema
