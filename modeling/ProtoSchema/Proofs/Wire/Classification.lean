import Mathlib.Data.Nat.Digits.Defs
import ProtoSchema.Proofs.Wire.Varint

/-!
# Which inputs are varints

Whether an input starts with a varint is told by the bytes at its front that ask for another one,
and by their number alone unless it is nine: the first nine bytes hold 63 bits, so of the tenth one
only the lowest bit has a place in a word. Input that stops asking only because it ends is told
apart from input that asks for too much by its length, since ten bytes that all ask for another one
cannot be continued to a varint whatever follows them.

The reader follows the groups one by one. Said for any number of groups that there is room for, its
recursion comes to the count of asking bytes, and what is read comes to the number that the groups
are the digits of.
-/

set_option autoImplicit false

namespace ProtoSchema.Wire.Varint

/-- Whether a byte asks for another one. -/
def continues (b : UInt8) : Bool := 128 ≤ b.toNat

/-- How many bytes at the front ask for another one. -/
def asking (bytes : Bytes) : Nat := (bytes.takeWhile continues).length

/-- The number in base 128 whose digits, least significant first, are the bytes without their top
bits. -/
def value (bytes : Bytes) : Nat := Nat.ofDigits 128 (bytes.map fun b ↦ b.toNat % 128)

/-- Every byte asks for another one, and there is room for one. -/
def EndsEarly (bytes : Bytes) : Prop := asking bytes = bytes.length ∧ bytes.length < 10

/-- More is asked for than a word can hold: another byte after the tenth, or bits of the tenth
beyond the lowest one. -/
def Overflows (bytes : Bytes) : Prop :=
  10 ≤ asking bytes ∨ asking bytes = 9 ∧ ∃ tenth, bytes[9]? = some tenth ∧ 1 < tenth.toNat

variable {b : UInt8} {bytes rest : Bytes} {w : UInt64}

/-! ## Asking bytes -/

theorem asking_cons_of_lt (h : b.toNat < 128) (rest : Bytes) : asking (b :: rest) = 0 := by
  rw [asking, List.takeWhile_cons_of_neg (by simpa [continues] using h), List.length_nil]

theorem asking_cons_of_le (h : 128 ≤ b.toNat) (rest : Bytes) :
    asking (b :: rest) = asking rest + 1 := by
  rw [asking, List.takeWhile_cons_of_pos (by simpa [continues] using h), List.length_cons, asking]

theorem asking_le (bytes : Bytes) : asking bytes ≤ bytes.length :=
  (List.takeWhile_sublist continues).length_le

theorem allContinue_iff : allContinue bytes = true ↔ asking bytes = bytes.length := by
  induction bytes with
  | nil => exact iff_of_true rfl rfl
  | cons b rest ih =>
    rw [allContinue] at ih ⊢
    rw [List.all_cons, Bool.and_eq_true, ih, decide_eq_true_iff]
    rcases Nat.lt_or_ge b.toNat 128 with h | h
    · rw [asking_cons_of_lt h, List.length_cons]
      omega
    · rw [asking_cons_of_le h, List.length_cons]
      omega

/-- The byte behind the asking ones asks for no other. -/
theorem getElem_asking_lt (h : asking bytes < bytes.length) :
    (bytes[asking bytes]).toNat < 128 := by
  induction bytes with
  | nil => exact absurd h (Nat.not_lt_zero _)
  | cons b rest ih =>
    rcases Nat.lt_or_ge b.toNat 128 with hb | hb
    · simp only [asking_cons_of_lt hb, List.getElem_cons_zero, hb]
    · have hrest : asking rest < rest.length := by
        rw [asking_cons_of_le hb, List.length_cons] at h
        omega
      simp only [asking_cons_of_le hb, List.getElem_cons_succ]
      exact ih hrest

/-! ## Groups

Seven bits go into each group, so nine of them are short of a word by one bit. -/

theorem value_cons (b : UInt8) (rest : Bytes) :
    value (b :: rest) = b.toNat % 128 + 128 * value rest := by
  rw [value, List.map_cons, Nat.ofDigits_cons, value]

theorem value_lt (bytes : Bytes) : value bytes < 128 ^ bytes.length := by
  have hdigits : ∀ d ∈ bytes.map fun b ↦ b.toNat % 128, d < 128 := by
    intro d hd
    obtain ⟨b, -, rfl⟩ := List.mem_map.1 hd
    exact Nat.mod_lt _ (by decide)
  have hlt := Nat.ofDigits_lt_base_pow_length (by decide) hdigits
  rwa [List.length_map] at hlt

/-- **What the groups come to.** As many bytes are taken as ask for another one, and one more, if
they are there and there is room for them. -/
theorem decodeGroups_eq (room : Nat) (bytes : Bytes) :
    decodeGroups room bytes =
      if asking bytes < room ∧ asking bytes < bytes.length then
        some (value (bytes.take (asking bytes + 1)), bytes.drop (asking bytes + 1))
      else none := by
  induction room generalizing bytes with
  | zero => simp [decodeGroups]
  | succ room ih =>
    cases bytes with
    | nil => simp [decodeGroups]
    | cons b rest =>
      rw [decodeGroups, List.length_cons]
      rcases Nat.lt_or_ge b.toNat 128 with hb | hb
      · rw [if_pos hb, asking_cons_of_lt hb, if_pos ⟨room.succ_pos, rest.length.succ_pos⟩,
          List.take_succ_cons, List.take_zero, List.drop_succ_cons, List.drop_zero, value_cons,
          Nat.mod_eq_of_lt hb]
        rfl
      · -- The reader takes the top bit off, which the byte is known to have.
        have hbyte : b.toNat % 128 = b.toNat - 128 := by
          have := b.toNat_lt
          omega
        rw [if_neg (Nat.not_lt.2 hb), ih, asking_cons_of_le hb, List.take_succ_cons,
          List.drop_succ_cons, value_cons, hbyte]
        simp only [Nat.add_lt_add_iff_right]
        split <;> rfl

theorem value_lt_size_iff (hlength : asking bytes < bytes.length) (hroom : asking bytes < 10) :
    value (bytes.take (asking bytes + 1)) < UInt64.size ↔ ¬Overflows bytes := by
  have hlast := getElem_asking_lt hlength
  have hlow : value (bytes.take (asking bytes)) < 128 ^ asking bytes := by
    have := value_lt (bytes.take (asking bytes))
    rwa [List.length_take_of_le hlength.le] at this
  have hvalue : value (bytes.take (asking bytes + 1)) =
      value (bytes.take (asking bytes)) + 128 ^ asking bytes * (bytes[asking bytes]).toNat := by
    rw [List.take_succ_eq_append_getElem hlength, value, List.map_append, Nat.ofDigits_append,
      List.length_map, List.length_take_of_le hlength.le, List.map_singleton,
      Nat.ofDigits_singleton, Nat.mod_eq_of_lt hlast, value]
  unfold Overflows
  rw [hvalue]
  rcases Nat.lt_or_eq_of_le (Nat.le_of_lt_succ hroom) with hnine | hnine
  · -- At most nine groups hold at most 63 bits.
    refine iff_of_true ?_ (by omega)
    calc value (bytes.take (asking bytes)) + 128 ^ asking bytes * (bytes[asking bytes]).toNat
        < 128 ^ asking bytes + 128 ^ asking bytes * (bytes[asking bytes]).toNat :=
          Nat.add_lt_add_right hlow _
      _ = 128 ^ asking bytes * ((bytes[asking bytes]).toNat + 1) := by
        rw [Nat.mul_succ, Nat.add_comm]
      _ ≤ 128 ^ 8 * 128 :=
        Nat.mul_le_mul (Nat.pow_le_pow_right (by decide) (Nat.le_of_lt_succ hnine)) hlast
      _ < UInt64.size := by decide
  · simp only [hnine] at hlow hlength hlast ⊢
    rw [List.getElem?_eq_getElem hlength]
    simp only [Option.some.injEq, exists_eq_left', true_and]
    have hsize : UInt64.size = 128 ^ 9 * 2 := by decide
    rw [hsize]
    omega

/-! ## Reading and writing

What neither ends early nor overflows has a byte among the first ten that asks for no other. The
number that ends there is what is read. -/

theorem decode_of_endsEarly (h : EndsEarly bytes) : decode bytes = .error (.truncated 1) := by
  rw [decode, allContinue_iff.2 h.1, decide_eq_true h.2, Bool.and_true, if_pos rfl]

theorem decode_of_overflows (h : Overflows bytes) : decode bytes = .error .invalidVarint := by
  have hle := asking_le bytes
  have hlong : ¬(decide (bytes.length < 10) && allContinue bytes) = true := by
    rw [Bool.and_eq_true, decide_eq_true_iff, allContinue_iff]
    rintro ⟨hshort, hall⟩
    rcases h with h | ⟨hnine, tenth, htenth, -⟩
    · omega
    · obtain ⟨hlength, -⟩ := List.getElem?_eq_some_iff.1 htenth
      omega
  rw [decode, if_neg hlong, decodeGroups_eq]
  split
  · next n left hgroups =>
    obtain ⟨⟨hroom, hlength⟩, hgroups⟩ := Option.ite_none_right_eq_some.1 hgroups
    obtain ⟨rfl, rfl⟩ := Prod.mk.inj (Option.some.inj hgroups)
    exact if_neg fun hlt ↦ (value_lt_size_iff hlength hroom).1 hlt h
  · rfl

theorem asking_lt_of_fits (hends : ¬EndsEarly bytes) (hoverflows : ¬Overflows bytes) :
    asking bytes < 10 ∧ asking bytes < bytes.length := by
  have hroom : asking bytes < 10 := Nat.lt_of_not_le fun h ↦ hoverflows (.inl h)
  refine ⟨hroom, Nat.lt_of_le_of_ne (asking_le bytes) fun h ↦ hends ⟨h, ?_⟩⟩
  omega

theorem decode_of_fits (hends : ¬EndsEarly bytes) (hoverflows : ¬Overflows bytes) :
    ∃ w : UInt64, w.toNat = value (bytes.take (asking bytes + 1)) ∧
      decode bytes = .ok (w, bytes.drop (asking bytes + 1)) := by
  obtain ⟨hroom, hlength⟩ := asking_lt_of_fits hends hoverflows
  have hlong : ¬(decide (bytes.length < 10) && allContinue bytes) = true := by
    rw [Bool.and_eq_true, decide_eq_true_iff, allContinue_iff]
    omega
  have hsize := (value_lt_size_iff hlength hroom).2 hoverflows
  refine ⟨UInt64.ofNat (value (bytes.take (asking bytes + 1))),
    UInt64.toNat_ofNat_of_lt' hsize, ?_⟩
  rw [decode, if_neg hlong, decodeGroups_eq, if_pos ⟨hroom, hlength⟩]
  exact if_pos hsize

theorem not_overflows_of_endsEarly (h : EndsEarly bytes) : ¬Overflows bytes := by
  intro hoverflows
  cases (decode_of_endsEarly h).symm.trans (decode_of_overflows hoverflows)

theorem length_encode_le_of_decode (h : decode bytes = .ok (w, rest)) :
    (encode w).length + rest.length ≤ bytes.length := by
  have hends : ¬EndsEarly bytes := by
    intro hends
    cases h.symm.trans (decode_of_endsEarly hends)
  have hoverflows : ¬Overflows bytes := by
    intro hoverflows
    cases h.symm.trans (decode_of_overflows hoverflows)
  obtain ⟨w', hvalue, hdecode⟩ := decode_of_fits hends hoverflows
  obtain ⟨rfl, rfl⟩ := Prod.mk.inj (Except.ok.inj (h.symm.trans hdecode))
  have hlength := (asking_lt_of_fits hends hoverflows).2
  have hlt := value_lt (bytes.take (asking bytes + 1))
  rw [List.length_take_of_le hlength, ← hvalue] at hlt
  have hencode : (encode w).length ≤ asking bytes + 1 := length_encodeNat_le hlt
  rw [List.length_drop]
  omega

/-- **Varints are told apart.** An input ends early, or it overflows, or it is read as the number
that its groups are the digits of, up to the first byte that asks for no other. What is written for
a word takes between one and ten bytes, no input from which the word is read takes fewer, and it is
read back whatever follows it. -/
theorem decode_classified :
    (∀ bytes : Bytes,
      (decode bytes = .error (.truncated 1) ↔ EndsEarly bytes) ∧
      (decode bytes = .error .invalidVarint ↔ Overflows bytes) ∧
      (EndsEarly bytes ∨ Overflows bytes ∨
        ∃ w : UInt64, w.toNat = value (bytes.take (asking bytes + 1)) ∧
          decode bytes = .ok (w, bytes.drop (asking bytes + 1)))) ∧
    ∀ w : UInt64, 1 ≤ (encode w).length ∧ (encode w).length ≤ 10 ∧
      (∀ bytes rest, decode bytes = .ok (w, rest) →
        (encode w).length + rest.length ≤ bytes.length) ∧
      ∀ rest, decode (encode w ++ rest) = .ok (w, rest) := by
  constructor
  · intro bytes
    by_cases hends : EndsEarly bytes
    · have hread := decode_of_endsEarly hends
      refine ⟨iff_of_true hread hends, ?_, .inl hends⟩
      exact iff_of_false (by simp [hread]) (not_overflows_of_endsEarly hends)
    · by_cases hoverflows : Overflows bytes
      · have hread := decode_of_overflows hoverflows
        exact ⟨iff_of_false (by simp [hread]) hends, iff_of_true hread hoverflows,
          .inr (.inl hoverflows)⟩
      · obtain ⟨w, hvalue, hread⟩ := decode_of_fits hends hoverflows
        exact ⟨iff_of_false (by simp [hread]) hends, iff_of_false (by simp [hread]) hoverflows,
          .inr (.inr ⟨w, hvalue, hread⟩)⟩
  · intro w
    exact ⟨List.length_pos_of_ne_nil (encode_ne_nil w), length_encode_le w,
      fun _ _ ↦ length_encode_le_of_decode, yields_encode w⟩

/-- Five is read from two bytes although one is written for it. -/
theorem decode_classified_padded :
    decode [0x85, 0x00] = .ok (5, []) ∧ (encode 5).length ≤ 2 := by
  have hread : decode [0x85, 0x00] = .ok (5, []) := by decide +kernel
  obtain ⟨-, hwritten⟩ := decode_classified
  obtain ⟨-, -, hshortest, -⟩ := hwritten 5
  exact ⟨hread, hshortest [0x85, 0x00] [] hread⟩

end ProtoSchema.Wire.Varint
