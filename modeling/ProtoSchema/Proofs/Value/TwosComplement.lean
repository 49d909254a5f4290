import Mathlib.Data.List.Induction
import Mathlib.Data.Nat.Digits.Defs
import Mathlib.Tactic.Ring
import ProtoSchema.Value.TwosComplement

/-!
# Two's complement of any width

Bytes denote the integer that the word of their bits denotes, read as a signed word as wide as they
are. `TwosComplement.denoted` says so with words of the standard library, so it neither looks at a
sign byte nor subtracts a power of two as the reader does.

Both reader and writer are best taken apart at the least significant byte. One more byte behind the
others makes `256 * n + b` of `n`, and the writer puts the remainder of `n` by 256 behind the form
of the quotient, with the signed quotient that rounds down. So sign extension needs no mention, and
the shortest form is the one whose quotient is written as shortly as possible.
-/

set_option autoImplicit false

namespace ProtoSchema.TwosComplement

/-- The integer that bytes denote in two's complement, most significant byte first. -/
def denoted (bytes : Bytes) : Int :=
  (BitVec.ofNat (8 * bytes.length) (Nat.ofDigits 256 (bytes.reverse.map UInt8.toNat))).toInt

/-- Bytes are the shortest form of an integer: they are not empty, they denote it, and no others
that do so are fewer. -/
structure IsShortest (bytes : Bytes) (n : Int) : Prop where
  ne_nil : bytes ≠ []
  denotes : denoted bytes = n
  minimal : ∀ other, other ≠ [] → denoted other = n → bytes.length ≤ other.length

/-! ## Bytes without a sign -/

theorem magnitude_append_singleton (bytes : Bytes) (b : UInt8) :
    magnitude (bytes ++ [b]) = 256 * magnitude bytes + b.toNat := by
  rw [magnitude, List.foldl_append, List.foldl_cons, List.foldl_nil, magnitude]

theorem magnitude_eq_ofDigits (bytes : Bytes) :
    magnitude bytes = Nat.ofDigits 256 (bytes.reverse.map UInt8.toNat) := by
  induction bytes using List.reverseRecOn with
  | nil => rfl
  | append_singleton bytes b ih =>
    rw [magnitude_append_singleton, ih, List.reverse_append, List.reverse_singleton,
      List.singleton_append, List.map_cons, Nat.ofDigits_cons, Nat.add_comm]

theorem magnitude_lt (bytes : Bytes) : magnitude bytes < 256 ^ bytes.length := by
  induction bytes using List.reverseRecOn with
  | nil => exact Nat.one_pos
  | append_singleton bytes b ih =>
    have hb := b.toNat_lt
    rw [magnitude_append_singleton, List.length_append, List.length_singleton, Nat.pow_succ]
    omega

/-- The first byte tells in which half of its range the magnitude is. -/
theorem magnitude_cons (b : UInt8) (bytes : Bytes) :
    magnitude (b :: bytes) = b.toNat * 256 ^ bytes.length + magnitude bytes := by
  induction bytes using List.reverseRecOn with
  | nil => simp [magnitude]
  | append_singleton bytes c ih =>
    rw [← List.cons_append, magnitude_append_singleton, ih, magnitude_append_singleton,
      List.length_append, List.length_singleton, Nat.pow_succ]
    ring

/-! ## Reading -/

/-- **Reading is two's complement.** -/
theorem decode_eq_denoted (bytes : Bytes) : decode bytes = denoted bytes := by
  have hwidth : 2 ^ (8 * bytes.length) = 256 ^ bytes.length := Nat.pow_mul ..
  rw [denoted, ← magnitude_eq_ofDigits, BitVec.toInt_eq_toNat_cond, BitVec.toNat_ofNat, hwidth,
    Nat.mod_eq_of_lt (magnitude_lt bytes)]
  cases bytes with
  | nil => rfl
  | cons b rest =>
    rw [decode, Nat.shiftLeft_eq, Nat.one_mul, hwidth, magnitude_cons, List.length_cons,
      Nat.pow_succ]
    have hrest := magnitude_lt rest
    generalize magnitude rest = low at *
    generalize 256 ^ rest.length = unit at *
    -- The word is negative exactly if its first byte has the top bit.
    have hsign : b.toNat < 128 ↔ 2 * (b.toNat * unit + low) < unit * 256 := by
      constructor
      · intro h
        have := Nat.mul_le_mul_right unit (Nat.le_of_lt_succ h)
        omega
      · intro h
        by_contra hb
        have := Nat.mul_le_mul_right unit (Nat.le_of_not_lt hb)
        omega
    simp only [hsign]

theorem decode_singleton (b : UInt8) :
    decode [b] = if b.toNat < 128 then (b.toNat : Int) else b.toNat - 256 := by
  have hmagnitude : magnitude [b] = b.toNat := by simp [magnitude]
  rw [decode, hmagnitude]
  rfl

theorem decode_append_singleton {bytes : Bytes} (h : bytes ≠ []) (b : UInt8) :
    decode (bytes ++ [b]) = 256 * decode bytes + b.toNat := by
  obtain ⟨c, rest, rfl⟩ := List.exists_cons_of_ne_nil h
  have hwidth : 1 <<< (8 * (c :: (rest ++ [b])).length) = 256 * 1 <<< (8 * (c :: rest).length) := by
    rw [Nat.shiftLeft_eq, Nat.shiftLeft_eq, ← List.cons_append, List.length_append,
      List.length_singleton, Nat.mul_add, Nat.pow_add]
    omega
  rw [List.cons_append, decode, decode, hwidth, ← List.cons_append, magnitude_append_singleton]
  split <;> push_cast <;> ring

/-! ## Writing

The recursion of the writer is on the integer, which gets nearer to zero with each byte. -/

theorem encode_of_byte {n : Int} (h : -128 ≤ n ∧ n < 128) :
    encode n = [UInt8.ofNat (n % 256).toNat] := by
  rw [encode, littleEndian, if_pos h, List.reverse_singleton]

theorem encode_of_wide {n : Int} (h : ¬(-128 ≤ n ∧ n < 128)) :
    encode n = encode (n / 256) ++ [UInt8.ofNat (n % 256).toNat] := by
  rw [encode, littleEndian, if_neg h, List.reverse_cons, encode]

theorem encode_ne_nil (n : Int) : encode n ≠ [] := by
  by_cases h : -128 ≤ n ∧ n < 128
  · rw [encode_of_byte h]
    exact List.cons_ne_nil _ _
  · rw [encode_of_wide h]
    exact List.append_ne_nil_of_right_ne_nil _ (List.cons_ne_nil _ _)

theorem toNat_remainder (n : Int) : ((UInt8.ofNat (n % 256).toNat).toNat : Int) = n % 256 := by
  have hlt : (n % 256).toNat < 256 := by omega
  rw [UInt8.toNat_ofNat_of_lt' hlt]
  omega

theorem decode_encode_eq (n : Int) : decode (encode n) = n := by
  induction hn : n.natAbs using Nat.strongRecOn generalizing n with
  | ind k ih =>
    have hlow := toNat_remainder n
    by_cases h : -128 ≤ n ∧ n < 128
    · rw [encode_of_byte h, decode_singleton]
      split <;> omega
    · rw [encode_of_wide h, decode_append_singleton (encode_ne_nil _), hlow,
        ih (n / 256).natAbs (by omega) _ rfl]
      omega

theorem length_encode_le {bytes : Bytes} (h : bytes ≠ []) :
    (encode (decode bytes)).length ≤ bytes.length := by
  induction bytes using List.reverseRecOn with
  | nil => exact absurd rfl h
  | append_singleton bytes b ih =>
    have hb := b.toNat_lt
    by_cases hbyte : -128 ≤ decode (bytes ++ [b]) ∧ decode (bytes ++ [b]) < 128
    · rw [encode_of_byte hbyte, List.length_append]
      exact Nat.le_add_left _ _
    · rw [encode_of_wide hbyte, List.length_append, List.length_append]
      by_cases hnil : bytes = []
      · -- A byte alone denotes what fits in a byte.
        subst hnil
        rw [List.nil_append, decode_singleton] at hbyte
        split at hbyte <;> omega
      · have hquotient : decode (bytes ++ [b]) / 256 = decode bytes := by
          rw [decode_append_singleton hnil]
          omega
        rw [hquotient]
        exact Nat.add_le_add_right (ih hnil) _

/-- **Writing gives the shortest form.** -/
theorem isShortest_encode (n : Int) : IsShortest (encode n) n where
  ne_nil := encode_ne_nil n
  denotes := by rw [← decode_eq_denoted, decode_encode_eq]
  minimal other hother hn := by
    rw [← decode_eq_denoted] at hn
    rw [← hn]
    exact length_encode_le hother

end ProtoSchema.TwosComplement
