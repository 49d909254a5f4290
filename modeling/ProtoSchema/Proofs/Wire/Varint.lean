import Mathlib.Algebra.Group.Nat.Defs
import ProtoSchema.Proofs.Result
import ProtoSchema.Wire.Tag
import ProtoSchema.Wire.ZigZag

/-!
# Reading back varints

What a writer puts on the wire is read back whatever stands behind it. This is said of a reading
step and a chunk of bytes, not of the two functions applied one after the other, because the chunks
of a message are always followed by more: `Yields step chunk a` leaves the rest open, and the
statements for tags, payloads, elements and records all have this form.

For varints the recursion of the reader is the recursion of the writer, and the only arithmetic is
division by 128.

Bytes from elsewhere need not be what a writer would write, but they too are read alike wherever
they stand: that a step is `Local` says so, and it passes from steps to their sequences.
-/

set_option autoImplicit false

/-! ## Steps and chunks

A step may be combined with others, and reads a longer chunk then. -/

namespace ProtoSchema.Wire

/-- The step reads the chunk as `a` and leaves whatever follows the chunk. -/
def Yields {ε α : Type} (step : Bytes → Except ε (α × Bytes)) (chunk : Bytes) (a : α) : Prop :=
  ∀ rest, step (chunk ++ rest) = .ok (a, rest)

/-- Whatever the step reads stands at the front of its input and is read alike wherever it
stands. -/
def Local {ε α : Type} (step : Bytes → Except ε (α × Bytes)) : Prop :=
  ∀ input a rest, step input = .ok (a, rest) → ∃ chunk, input = chunk ++ rest ∧ Yields step chunk a

namespace Local

variable {ε α β : Type} {step : Bytes → Except ε (α × Bytes)}

theorem pure (b : β) : Local fun rest ↦ (Pure.pure (b, rest) : Except ε (β × Bytes)) := by
  intro input b' rest h
  obtain ⟨rfl, rfl⟩ := Prod.mk.inj (Except.ok.inj h)
  exact ⟨[], rfl, fun _ ↦ rfl⟩

theorem error (e : ε) : Local fun _ ↦ (Except.error e : Except ε (β × Bytes)) := by
  intro input b rest h
  cases h

theorem after (x : Except ε α) {f : α → Bytes → Except ε (β × Bytes)} (hf : ∀ a, Local (f a)) :
    Local fun input ↦ x >>= fun a ↦ f a input := by
  intro input b rest h
  obtain ⟨a, rfl, hb⟩ := bind_eq_ok.1 h
  exact hf a input b rest hb

theorem lift (x : Except ε β) : Local fun rest ↦ x >>= fun b ↦ Pure.pure (b, rest) :=
  after x .pure

theorem mapError {ε' : Type} (h : Local step) (f : ε → ε') :
    Local fun input ↦ (step input).mapError f := by
  intro input a rest ha
  obtain ⟨chunk, rfl, hchunk⟩ := h input a rest (mapError_eq_ok.1 ha)
  exact ⟨chunk, rfl, fun rest ↦ mapError_eq_ok.2 (hchunk rest)⟩

/-- Steps one after the other read their chunks one after the other. -/
theorem bind {f : α × Bytes → Except ε (β × Bytes)} (h : Local step)
    (hf : ∀ a, Local fun left ↦ f (a, left)) : Local fun input ↦ step input >>= f := by
  intro input b rest hall
  obtain ⟨⟨a, left⟩, ha, hb⟩ := bind_eq_ok.1 hall
  obtain ⟨chunk, rfl, hchunk⟩ := h input a left ha
  obtain ⟨more, rfl, hmore⟩ := hf a left b rest hb
  refine ⟨chunk ++ more, (List.append_assoc _ _ _).symm, fun rest ↦ bind_eq_ok.2 ?_⟩
  refine ⟨(a, more ++ rest), ?_, hmore rest⟩
  rw [List.append_assoc]
  exact hchunk (more ++ rest)

theorem suffix (h : Local step) {input rest : Bytes} {a : α} (ha : step input = .ok (a, rest)) :
    rest <:+ input := by
  obtain ⟨chunk, rfl, -⟩ := h input a rest ha
  exact List.suffix_append chunk rest

/-- A local step reads what it consumed. -/
theorem yields (h : Local step) {input rest : Bytes} {a : α} (ha : step input = .ok (a, rest)) :
    input = input.take (input.length - rest.length) ++ rest ∧
      Yields step (input.take (input.length - rest.length)) a := by
  obtain ⟨chunk, rfl, hchunk⟩ := h input a rest ha
  rw [List.length_append, Nat.add_sub_cancel, List.take_left]
  exact ⟨rfl, hchunk⟩

/-- What a local step reads to the end, it reads wherever it stands. -/
theorem yields_of_all (h : Local step) {chunk : Bytes} {a : α} (ha : step chunk = .ok (a, [])) :
    Yields step chunk a := by
  obtain ⟨whole, rfl, hwhole⟩ := h chunk a [] ha
  rwa [List.append_nil]

end Local

/-! ## Words in groups

A word is written in groups of seven bits, the lowest one first, and each byte but the last asks for
another one. -/

namespace Varint

theorem encodeNat_of_lt {n : Nat} (h : n < 128) : encodeNat n = [UInt8.ofNat n] := by
  rw [encodeNat, if_pos h]

theorem encodeNat_of_le {n : Nat} (h : 128 ≤ n) :
    encodeNat n = UInt8.ofNat (n % 128 + 128) :: encodeNat (n / 128) := by
  rw [encodeNat, if_neg (by omega)]

theorem encodeNat_ne_nil (n : Nat) : encodeNat n ≠ [] := by
  rw [encodeNat]
  split <;> simp

theorem encode_ne_nil (w : UInt64) : encode w ≠ [] := encodeNat_ne_nil _

theorem length_encodeNat_le {room n : Nat} (h : n < 128 ^ (room + 1)) :
    (encodeNat n).length ≤ room + 1 := by
  induction room generalizing n with
  | zero =>
    rw [encodeNat_of_lt (by omega)]
    exact Nat.le_refl 1
  | succ room ih =>
    rcases Nat.lt_or_ge n 128 with hn | hn
    · rw [encodeNat_of_lt hn]
      exact Nat.le_add_left 1 _
    · have hdiv : n / 128 < 128 ^ (room + 1) := by
        rw [Nat.div_lt_iff_lt_mul (by decide)]
        rwa [Nat.pow_succ] at h
      rw [encodeNat_of_le hn, List.length_cons]
      exact Nat.succ_le_succ (ih hdiv)

theorem lt_length_encodeNat {k n : Nat} (h : 128 ^ k ≤ n) : k < (encodeNat n).length := by
  induction k generalizing n with
  | zero => exact List.length_pos_of_ne_nil (encodeNat_ne_nil n)
  | succ k ih =>
    have hn : 128 ≤ n := Nat.le_trans (Nat.le_self_pow (by omega) 128) h
    have hdiv : 128 ^ k ≤ n / 128 := by
      rw [Nat.le_div_iff_mul_le (by decide)]
      rwa [Nat.pow_succ] at h
    rw [encodeNat_of_le hn, List.length_cons]
    exact Nat.succ_lt_succ (ih hdiv)

/-- A word takes as many bytes as it has groups. -/
theorem length_encode {k : Nat} {w : UInt64} (hlow : 128 ^ k ≤ w.toNat)
    (hhigh : w.toNat < 128 ^ (k + 1)) : (encode w).length = k + 1 :=
  Nat.le_antisymm (length_encodeNat_le hhigh) (lt_length_encodeNat hlow)

theorem length_encode_le (w : UInt64) : (encode w).length ≤ 10 :=
  length_encodeNat_le (Nat.lt_of_lt_of_le w.toNat_lt (by decide))

/-- The last byte of a varint asks for no other. -/
theorem not_allContinue_encodeNat (n : Nat) (rest : Bytes) :
    allContinue (encodeNat n ++ rest) = false := by
  induction n using Nat.strongRecOn with
  | ind n ih =>
    by_cases h : n < 128
    · rw [encodeNat_of_lt h]
      simp [allContinue]
      omega
    · rw [encodeNat_of_le (by omega), List.cons_append, allContinue, List.all_cons]
      have := ih (n / 128) (by omega)
      rw [allContinue] at this
      rw [this, Bool.and_false]

/-- A number of at most `room + 1` groups is read back with as much room. -/
theorem decodeGroups_encodeNat {room n : Nat} (h : n < 128 ^ (room + 1)) (rest : Bytes) :
    decodeGroups (room + 1) (encodeNat n ++ rest) = some (n, rest) := by
  induction room generalizing n with
  | zero =>
    have hn : n < 128 := by simpa using h
    rw [encodeNat_of_lt hn, List.cons_append, List.nil_append, decodeGroups,
      UInt8.toNat_ofNat_of_lt' (Nat.lt_trans hn (by decide)), if_pos hn]
  | succ room ih =>
    by_cases hn : n < 128
    · rw [encodeNat_of_lt hn, List.cons_append, List.nil_append, decodeGroups,
        UInt8.toNat_ofNat_of_lt' (Nat.lt_trans hn (by decide)), if_pos hn]
    · have hdiv : n / 128 < 128 ^ (room + 1) := by
        rw [Nat.div_lt_iff_lt_mul (by decide)]
        rwa [Nat.pow_succ] at h
      have hbyte : (UInt8.ofNat (n % 128 + 128)).toNat = n % 128 + 128 :=
        UInt8.toNat_ofNat_of_lt' (by change _ < 256; omega)
      have hsum : n % 128 + 128 - 128 + 128 * (n / 128) = n := by omega
      rw [encodeNat_of_le (by omega), List.cons_append, decodeGroups, hbyte, if_neg (by omega),
        ih hdiv, Option.map_some]
      simp only [hsum]

/-- Every word is read back from its varint. -/
theorem yields_encode (w : UInt64) : Yields decode (encode w) w := by
  intro rest
  have hw : w.toNat < UInt64.size := w.toNat_lt
  have hg : decodeGroups 10 (encodeNat w.toNat ++ rest) = some (w.toNat, rest) :=
    decodeGroups_encodeNat (Nat.lt_of_lt_of_le hw (by decide)) rest
  rw [decode, encode, not_allContinue_encodeNat, Bool.and_false, if_neg Bool.false_ne_true, hg]
  simp only [if_pos hw, UInt64.ofNat_toNat]

/-- The groups of a number are read alike wherever they stand, and the last of them asks for no
other. -/
theorem exists_chunk_of_decodeGroups {room n : Nat} {input rest : Bytes}
    (h : decodeGroups room input = some (n, rest)) :
    ∃ chunk, input = chunk ++ rest ∧ ∀ rest,
      decodeGroups room (chunk ++ rest) = some (n, rest) ∧ allContinue (chunk ++ rest) = false := by
  induction room generalizing input n with
  | zero => cases h
  | succ room ih =>
    cases input with
    | nil => cases h
    | cons b tail =>
      rw [decodeGroups] at h
      split at h
      · next hb =>
        obtain ⟨rfl, rfl⟩ := Prod.mk.inj (Option.some.inj h)
        refine ⟨[b], rfl, fun rest ↦ ⟨?_, ?_⟩⟩
        · rw [List.singleton_append, decodeGroups, if_pos hb]
        · rw [allContinue, List.singleton_append, List.all_cons, decide_eq_false (Nat.not_le.2 hb),
            Bool.false_and]
      · next hb =>
        obtain ⟨⟨high, left⟩, hg, h⟩ := Option.map_eq_some_iff.1 h
        obtain ⟨rfl, rfl⟩ := Prod.mk.inj h
        obtain ⟨chunk, rfl, hchunk⟩ := ih hg
        refine ⟨b :: chunk, rfl, fun rest ↦ ⟨?_, ?_⟩⟩
        · rw [List.cons_append, decodeGroups, if_neg hb, (hchunk rest).1, Option.map_some]
        · have hstop := (hchunk rest).2
          rw [allContinue] at hstop ⊢
          rw [List.cons_append, List.all_cons, hstop, Bool.and_false]

theorem local_decode : Local decode := by
  intro input w rest h
  unfold decode at h
  split at h
  · cases h
  · split at h
    · next n left hg =>
      obtain ⟨hn, h⟩ := ite_ok_eq_ok.1 h
      obtain ⟨rfl, rfl⟩ := Prod.mk.inj (Except.ok.inj h)
      obtain ⟨chunk, rfl, hchunk⟩ := exists_chunk_of_decodeGroups hg
      refine ⟨chunk, rfl, fun rest ↦ ?_⟩
      rw [decode, (hchunk rest).2, Bool.and_false, if_neg Bool.false_ne_true, (hchunk rest).1]
      exact if_pos hn
    · cases h

end Varint

/-! ## Tags -/

namespace Tag

/-- A tag whose number may stand in a key. -/
def IsValid (t : Tag) : Prop := 1 ≤ t.number ∧ t.number ≤ maxFieldNumber

theorem toNat_key {t : Tag} (h : t.IsValid) : t.key.toNat = t.number * 8 + t.wireType.bits := by
  have hn : t.number ≤ 0x1FFFFFFF := h.2
  have hb := t.wireType.bits_lt
  rw [key, UInt64.toNat_ofNat_of_lt' (by rw [UInt64.size]; omega)]

theorem ofKey_key {t : Tag} (h : t.IsValid) : ofKey t.key = .ok t := by
  have hb := t.wireType.bits_lt
  have hdiv : t.key.toNat / 8 = t.number := by
    rw [toNat_key h]
    omega
  have hmod : t.key.toNat % 8 = t.wireType.bits := by
    rw [toNat_key h]
    omega
  have hn : ¬(t.number = 0 ∨ maxFieldNumber < t.number) := by
    have h₁ := h.1
    have h₂ := h.2
    omega
  simp only [ofKey, hdiv, hmod, if_neg hn, WireType.ofBits?_bits]

/-- A valid tag is read back from its key. -/
theorem yields_encode {t : Tag} (h : t.IsValid) : Yields decode t.encode t := by
  intro rest
  rw [decode, encode, Varint.yields_encode, ok_bind]
  simp only [ofKey_key h, ok_bind, pure_eq_ok]

theorem encode_ne_nil (t : Tag) : t.encode ≠ [] := Varint.encode_ne_nil _

theorem local_decode : Local decode := Varint.local_decode.bind fun key ↦ .lift (ofKey key)

end Tag

end ProtoSchema.Wire
