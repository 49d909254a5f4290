import Mathlib.Algebra.Ring.Int.Defs
import ProtoSchema.Derive.Settings
import ProtoSchema.Proofs.Derive.Enumeration

/-!
# Integers in attributes

An integer of an attribute is a whole number with any number of minus signs in front. The number is
read before the signs are applied, so whether it fits is asked of its magnitude. That is the same
question for every integer but one: the least integer of 64 bits is the only one whose magnitude
does not fit, and it is refused. Numbers of variants do not come near it, and what is left for them
is to fit into 32 bits once the signs are applied.

That signs and number are read as such is a matter of the grammar. Each sign is read one level
deeper than the one before it, and behind the number nothing is left that could go on with it.
-/

set_option autoImplicit false

namespace ProtoSchema.Derive

/-! ## What an expression denotes

Magnitude and sign are kept apart until the signs are applied. Applying a sign changes nothing about
the magnitude. -/

/-- The magnitude of an integer fits into 64 bits with a sign. -/
def FitsMagnitude (n : Int) : Prop := -2 ^ 63 < n ∧ n ≤ 2 ^ 63 - 1

instance (n : Int) : Decidable (FitsMagnitude n) := inferInstanceAs (Decidable (_ ∧ _))

instance (n : Int) : Decidable (FitsEnum n) := inferInstanceAs (Decidable (_ ∧ _))

theorem fitsMagnitude_neg {n : Int} : FitsMagnitude (-n) ↔ FitsMagnitude n := by
  unfold FitsMagnitude
  omega

theorem toInt_ofInt_of_fitsMagnitude {n : Int} (h : FitsMagnitude n) :
    (Int64.ofInt n).toInt = n := by
  obtain ⟨hmin, hmax⟩ := h
  exact Int64.toInt_ofInt_of_le (Int.le_of_lt hmin) (Int.lt_of_le_sub_one hmax)

theorem fitsMagnitude_of_fitsEnum {n : Int} (h : FitsEnum n) : FitsMagnitude n := by
  obtain ⟨hmin, hmax⟩ := h
  rw [Int32.toInt_minValue] at hmin
  rw [Int32.toInt_maxValue] at hmax
  unfold FitsMagnitude
  omega

namespace Expression

variable {e : Expression} {n : Int}

/-- An integer is read if its magnitude fits, whatever its sign. -/
theorem signed?_of_denoted? (h : e.denoted? = some n) :
    e.signed? = some (if FitsMagnitude n then .ok n else .error (.grammar .tooLarge)) := by
  fun_induction denoted? e generalizing n with
  | case1 magnitude =>
    obtain rfl := Option.some.inj h
    have hfits : FitsMagnitude magnitude ↔ (magnitude : Int) ≤ Int64.maxValue.toInt := by
      rw [Int64.toInt_maxValue]
      unfold FitsMagnitude
      omega
    simp only [signed?, hfits]
  | case2 e ih =>
    obtain ⟨m, hm, rfl⟩ := Option.map_eq_some_iff.1 h
    simp only [signed?, ih hm, Option.map_some, fitsMagnitude_neg]
    split <;> rfl
  | case3 => cases h

theorem default_of_denoted? (h : e.denoted? = some n) :
    e.default =
      if FitsMagnitude n then .ok (.int (.ofInt n)) else .error (.grammar .tooLarge) := by
  unfold Expression.default
  rw [signed?_of_denoted? h]
  dsimp only
  split <;> rfl

theorem enumNumber_of_denoted? (h : e.denoted? = some n) :
    e.enumNumber =
      if FitsEnum n then .ok (.ofInt n)
      else .error (if FitsMagnitude n then .enumNumberRange else .grammar .tooLarge) := by
  unfold enumNumber
  rw [signed?_of_denoted? h]
  by_cases hmagnitude : FitsMagnitude n
  · simp only [if_pos hmagnitude]
    rfl
  · have henum : ¬FitsEnum n := fun henum ↦ hmagnitude (fitsMagnitude_of_fitsEnum henum)
    simp only [if_neg hmagnitude, if_neg henum]

end Expression

/-! ## How it is read -/

/-- A whole number with minus signs in front. -/
def Expression.signed (magnitude : Nat) : (signs : Nat) → Expression
  | 0 => literal (.integer magnitude)
  | signs + 1 => negation (signed magnitude signs)

theorem Expression.denoted?_signed (magnitude signs : Nat) :
    (signed magnitude signs).denoted? = some ((-1 : Int) ^ signs * magnitude) := by
  induction signs with
  | zero => rw [signed, denoted?, Int.pow_zero, Int.one_mul]
  | succ signs ih =>
    have hsign : (-1 : Int) ^ (signs + 1) * magnitude = -((-1) ^ signs * magnitude) := by
      rw [Int.pow_succ, Int.mul_neg_one, Int.neg_mul]
    rw [signed, denoted?, ih, hsign]
    rfl

theorem Expression.signed_ne_range (magnitude signs : Nat) : signed magnitude signs ≠ .range := by
  cases signs <;> exact Expression.noConfusion

/-- The tokens of minus signs, each joined to what follows it or not, and of a literal behind
them. -/
def signedTokens (joined : List Bool) (spelling : String) : List Token :=
  joined.map (Token.mark '-') ++ [.literal spelling]

section

variable {spelling : String} {magnitude : Nat} {joined : List Bool} {stray : Option Bracket}

theorem operand_minus (r : Readers) (j : Bool) (rest written : List Token) :
    Grammar.operand r true ⟨.mark '-' j :: rest, written, stray⟩ =
      r.operand true ⟨rest, .mark '-' j :: written, stray⟩ >>= fun (e, c) ↦
        .ok (.negation e, c) := rfl

theorem operand_literal (r : Readers) (spelling : String) (written : List Token) :
    Grammar.operand r true ⟨[.literal spelling], written, stray⟩ =
      .ok (.literal (.ofSpelling spelling), ⟨[], .literal spelling :: written, stray⟩) := rfl

theorem operators_nil (r : Readers) {e : Expression} (h : e ≠ .range) (written : List Token) :
    Grammar.operators r true e .jump ⟨[], written, stray⟩ = .ok (e, ⟨[], written, stray⟩) := by
  cases e with
  | range => exact absurd rfl h
  | literal _ | negation _ | comparison | invocation _ | block | other => rfl

theorem operand_signedTokens (h : Literal.ofSpelling spelling = .integer magnitude) {depth : Nat}
    (hdepth : joined.length < depth) (written : List Token) :
    (readers depth).operand true ⟨signedTokens joined spelling, written, stray⟩ =
      .ok (.signed magnitude joined.length,
        ⟨[], (signedTokens joined spelling).reverse ++ written, stray⟩) := by
  induction joined generalizing depth written with
  | nil =>
    obtain ⟨depth, rfl⟩ := Nat.exists_eq_add_one_of_ne_zero (Nat.ne_zero_of_lt hdepth)
    exact (operand_literal (readers depth) spelling written).trans (by rw [h]; rfl)
  | cons j rest ih =>
    obtain ⟨depth, rfl⟩ := Nat.exists_eq_add_one_of_ne_zero (Nat.ne_zero_of_lt hdepth)
    have hrest := ih (Nat.lt_of_succ_lt_succ hdepth) (.mark '-' j :: written)
    refine (operand_minus (readers depth) j (signedTokens rest spelling) written).trans ?_
    rw [hrest, ok_bind]
    simp only [signedTokens, Expression.signed, List.length_cons, List.map_cons, List.cons_append,
      List.reverse_cons, List.append_assoc, List.nil_append]

theorem sizeAll_signedTokens (joined : List Bool) (spelling : String) :
    Token.sizeAll (signedTokens joined spelling) = joined.length + 1 := by
  induction joined with
  | nil => rfl
  | cons j rest ih =>
    change 1 + Token.sizeAll (signedTokens rest spelling) = rest.length + 1 + 1
    omega

/-- Signs and a whole number are read as what they are. -/
theorem whole_signedTokens (h : Literal.ofSpelling spelling = .integer magnitude) :
    Scan.whole anyExpression (signedTokens joined spelling) =
      .ok (.signed magnitude joined.length, signedTokens joined spelling) := by
  -- Every sign takes one level of the readers, and they have more levels than there are tokens.
  obtain ⟨depth, hdepth⟩ : ∃ depth, readersFor (signedTokens joined spelling) =
      readers (depth + 1) ∧ joined.length < depth + 1 := by
    refine ⟨8 * Token.sizeAll (signedTokens joined spelling) + 7, rfl, ?_⟩
    rw [sizeAll_signedTokens]
    omega
  have hread : anyExpression ⟨signedTokens joined spelling, [], none⟩ =
      .ok (.signed magnitude joined.length,
        ⟨[], (signedTokens joined spelling).reverse, none⟩) := by
    have hexpression : anyExpression ⟨signedTokens joined spelling, [], none⟩ =
        (readersFor (signedTokens joined spelling)).operand true
            ⟨signedTokens joined spelling, [], none⟩ >>= fun (e, c) ↦
          (readersFor (signedTokens joined spelling)).operators true e .jump c := rfl
    rw [hexpression, hdepth.1, operand_signedTokens h hdepth.2, ok_bind, List.append_nil]
    exact operators_nil (readers depth) (Expression.signed_ne_range magnitude _) _
  rw [Scan.whole, hread]
  simp only [ok_bind, List.reverse_reverse, pure_eq_ok]

end

/-! ## What is accepted -/

/-- The integer that an expression denotes is read exactly: the expression is a default if the
magnitude of the integer fits into 64 bits with a sign, and the number of an enum value if the
integer fits into 32 bits. What is read is the integer itself, and all else is refused. -/
structure Expression.ReadExactly (e : Expression) (n : Int) : Prop where
  default_iff : ∀ d, e.default = .ok d ↔ FitsMagnitude n ∧ ∃ w : Int64, w.toInt = n ∧ d = .int w
  default_refused : ¬FitsMagnitude n → e.default = .error (.grammar .tooLarge)
  enumNumber_iff : ∀ m : Int32, e.enumNumber = .ok m ↔ FitsEnum n ∧ m.toInt = n
  enumNumber_refused : ¬FitsEnum n →
    e.enumNumber = .error .enumNumberRange ∨ e.enumNumber = .error (.grammar .tooLarge)

theorem Expression.readExactly_of_denoted? {e : Expression} {n : Int} (h : e.denoted? = some n) :
    e.ReadExactly n where
  default_iff d := by
    rw [default_of_denoted? h, ite_ok_eq_ok]
    refine and_congr_right fun hfits ↦ ⟨?_, ?_⟩
    · intro hd
      exact ⟨_, toInt_ofInt_of_fitsMagnitude hfits, (Except.ok.inj hd).symm⟩
    · rintro ⟨w, rfl, rfl⟩
      rw [Int64.ofInt_toInt]
  default_refused hfits := by rw [default_of_denoted? h, if_neg hfits]
  enumNumber_iff m := by
    rw [enumNumber_of_denoted? h, ite_ok_eq_ok]
    refine and_congr_right fun hfits ↦ ⟨?_, ?_⟩
    · intro hm
      rw [← Except.ok.inj hm]
      exact fitsEnum_iff.1 hfits
    · rintro rfl
      rw [Int32.ofInt_toInt]
  enumNumber_refused hfits := by
    rw [enumNumber_of_denoted? h, if_neg hfits]
    split
    · exact .inl rfl
    · exact .inr rfl

/-- **Integers are read exactly.** A literal that stands for a whole number, with any minus signs in
front, is an expression that denotes the number with these signs, and that integer is read
exactly. -/
theorem Expression.integers_exact (joined : List Bool) (spelling : String) (magnitude : Nat)
    (h : Literal.ofSpelling spelling = .integer magnitude) :
    ∃ e, Scan.whole anyExpression (signedTokens joined spelling) =
        .ok (e, signedTokens joined spelling) ∧
      e.denoted? = some ((-1 : Int) ^ joined.length * magnitude) ∧
      e.ReadExactly ((-1 : Int) ^ joined.length * magnitude) := by
  have hdenoted := denoted?_signed magnitude joined.length
  exact ⟨_, whole_signedTokens h, hdenoted, readExactly_of_denoted? hdenoted⟩

/-- Three minus signs in front of a number in base sixteen. -/
theorem Expression.integers_exact_signs :
    Literal.ofSpelling "0x1_F" = .integer 31 ∧
    ∃ e, Scan.whole anyExpression (signedTokens [true, true, false] "0x1_F") =
        .ok (e, signedTokens [true, true, false] "0x1_F") ∧
      e.default = .ok (.int (-31)) ∧ e.enumNumber = .ok (-31) := by
  have hspelling : Literal.ofSpelling "0x1_F" = .integer 31 := by decide +kernel
  obtain ⟨e, hread, -, hexact⟩ := integers_exact [true, true, false] "0x1_F" 31 hspelling
  refine ⟨hspelling, e, hread, ?_, ?_⟩
  · exact (hexact.default_iff _).2 ⟨by decide, -31, by decide, rfl⟩
  · exact (hexact.enumNumber_iff _).2 ⟨by decide, by decide⟩

/-- The least integer of 64 bits is refused although it fits. -/
theorem Expression.least_refused :
    ∃ e, Scan.whole anyExpression (signedTokens [false] "9223372036854775808") =
        .ok (e, signedTokens [false] "9223372036854775808") ∧
      e.denoted? = some Int64.minValue.toInt ∧ e.default = .error (.grammar .tooLarge) := by
  have hspelling : Literal.ofSpelling "9223372036854775808" = .integer 9223372036854775808 := by
    decide +kernel
  have hdenoted := denoted?_signed 9223372036854775808 1
  refine ⟨_, whole_signedTokens hspelling, hdenoted.trans (by decide), ?_⟩
  exact (default_of_denoted? hdenoted).trans (if_neg (by decide))

end ProtoSchema.Derive
