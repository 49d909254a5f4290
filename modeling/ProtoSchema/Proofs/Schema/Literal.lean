import Mathlib.Data.List.Basic
import ProtoSchema.Schema.Printer

/-!
# Literals of defaults

The literal of a text or of bytes stands between double quotes. What may not stand there as itself
is escaped, and an octal escape has three digits whatever the byte, so that a digit behind it is
none of its own. Reading the escapes is a function on texts here, which looks at no byte; it is
undone byte by byte, with any text behind, and that carries the induction.
-/

set_option autoImplicit false

namespace ProtoSchema

/-! ## Reading -/

/-- The value of an octal digit. -/
def octalDigit? (c : Char) : Option Nat :=
  if '0' ≤ c ∧ c ≤ '7' then some (c.toNat - '0'.toNat) else none

/-- The byte that three octal digits stand for. -/
def octalByte? (a b c : Char) : Option UInt8 := do
  let n := 64 * (← octalDigit? a) + 8 * (← octalDigit? b) + (← octalDigit? c)
  if n < 256 then some (UInt8.ofNat n) else none

/-- The bytes that a text between double quotes stands for: an escape stands for its byte, any other
character for its encoding. -/
def unescape? : List Char → Option Bytes
  | [] => some []
  | '\\' :: '"' :: rest => (unescape? rest).map (0x22 :: ·)
  | '\\' :: '\\' :: rest => (unescape? rest).map (0x5C :: ·)
  | '\\' :: 'n' :: rest => (unescape? rest).map (0x0A :: ·)
  | '\\' :: 'r' :: rest => (unescape? rest).map (0x0D :: ·)
  | '\\' :: 't' :: rest => (unescape? rest).map (0x09 :: ·)
  | '\\' :: a :: b :: c :: rest =>
    (octalByte? a b c).bind fun byte ↦ (unescape? rest).map (byte :: ·)
  | c :: rest =>
    if c = '\\' ∨ c = '"' then none
    else (unescape? rest).map (String.utf8EncodeChar c ++ ·)

/-- A text that breaks no line, and in which double quotes and backslashes stand in escapes only. -/
inductive Escaped : List Char → Prop
  | nil : Escaped []
  | plain {c : Char} {rest : List Char} (hc : c ∉ ['"', '\\', '\n', '\r'])
      (h : Escaped rest) : Escaped (c :: rest)
  | short {c : Char} {rest : List Char} (hc : c ∈ ['"', '\\', 'n', 'r', 't'])
      (h : Escaped rest) : Escaped ('\\' :: c :: rest)
  | octal {a b c : Char} {rest : List Char} (hdigits : ∀ d ∈ [a, b, c], '0' ≤ d ∧ d ≤ '7')
      (h : Escaped rest) : Escaped ('\\' :: a :: b :: c :: rest)

/-- A text that may stand between double quotes and is read as bytes. -/
structure Spells (text : List Char) (bytes : Bytes) : Prop where
  printable : ∀ c ∈ text, ' ' ≤ c ∧ c ≤ '~'
  escaped : Escaped text
  read : unescape? text = some bytes

/-- A literal: a double quote, a text that spells the bytes, and a double quote. -/
def IsLiteral (literal : String) (bytes : Bytes) : Prop :=
  ∃ text, literal.toList = '"' :: (text ++ ['"']) ∧ Spells text bytes

/-! ## Single bytes

A byte is written as itself, as an escape of two characters or by three octal digits. Each of these
is read back as the byte, and of the digits none is missing, so that the next character is not taken
for one of them. -/

theorem unescape?_plain {c : Char} (hslash : c ≠ '\\') (hquote : c ≠ '"') (rest : List Char) :
    unescape? (c :: rest) = (unescape? rest).map (String.utf8EncodeChar c ++ ·) := by
  rw [unescape?.eq_def]
  split <;> simp_all

theorem unescape?_octal {a b c : Char} (h : '0' ≤ a ∧ a ≤ '7') (rest : List Char) :
    unescape? ('\\' :: a :: b :: c :: rest)
      = (octalByte? a b c).bind fun byte ↦ (unescape? rest).map (byte :: ·) := by
  have hne : a ≠ '"' ∧ a ≠ '\\' ∧ a ≠ 'n' ∧ a ≠ 'r' ∧ a ≠ 't' := by
    refine ⟨?_, ?_, ?_, ?_, ?_⟩ <;> (rintro rfl; exact absurd h (by decide))
  rw [unescape?] <;> simp_all

theorem toList_octal (b : UInt8) : (octal b).toList =
    [Nat.digitChar (b.toNat / 64 % 8), Nat.digitChar (b.toNat / 8 % 8),
      Nat.digitChar (b.toNat % 8)] := by
  simp [octal, Char.toString]

theorem isOctal_digitChar : ∀ n < 8, '0' ≤ Nat.digitChar n ∧ Nat.digitChar n ≤ '7' := by
  decide

theorem octalDigit?_digitChar : ∀ n < 8, octalDigit? (Nat.digitChar n) = some n := by
  decide

theorem octalByte?_digits (b : UInt8) :
    octalByte? (Nat.digitChar (b.toNat / 64 % 8)) (Nat.digitChar (b.toNat / 8 % 8))
      (Nat.digitChar (b.toNat % 8)) = some b := by
  have hlt := b.toNat_lt
  have hsum : 64 * (b.toNat / 64 % 8) + 8 * (b.toNat / 8 % 8) + b.toNat % 8 = b.toNat := by
    omega
  have hdigit (n : Nat) : octalDigit? (Nat.digitChar (n % 8)) = some (n % 8) :=
    octalDigit?_digitChar _ (Nat.mod_lt _ (by decide))
  simp only [octalByte?, hdigit, Option.bind_eq_bind, Option.bind_some, hsum, UInt8.ofNat_toNat]
  exact if_pos hlt

theorem printable_ofNat : ∀ n < 256, (0x20 ≤ n ∧ n ≤ 0x7E) ∧ n ≠ 0x22 ∧ n ≠ 0x5C →
    (' ' ≤ Char.ofNat n ∧ Char.ofNat n ≤ '~') ∧
      Char.ofNat n ∉ ['"', '\\', '\n', '\r'] ∧
      String.utf8EncodeChar (Char.ofNat n) = [UInt8.ofNat n] := by
  decide +kernel

/-! ## Texts -/

namespace Spells

variable {text : List Char} {bytes : Bytes} {b : UInt8}

theorem nil : Spells [] [] where
  printable := List.forall_mem_nil _
  escaped := .nil
  read := rfl

theorem plain {c : Char} (hprintable : ' ' ≤ c ∧ c ≤ '~') (hc : c ∉ ['"', '\\', '\n', '\r'])
    (hencode : String.utf8EncodeChar c = [b]) (h : Spells text bytes) :
    Spells (c :: text) (b :: bytes) where
  printable := List.forall_mem_cons.2 ⟨hprintable, h.printable⟩
  escaped := .plain hc h.escaped
  read := by
    simp only [List.mem_cons, not_or] at hc
    rw [unescape?_plain hc.2.1 hc.1, h.read, hencode]
    rfl

theorem short {c : Char} {a : UInt8} (hb : b = a) (hc : c ∈ ['"', '\\', 'n', 'r', 't'])
    (hread : unescape? ('\\' :: c :: text) = (unescape? text).map (a :: ·))
    (h : Spells text bytes) : Spells ('\\' :: c :: text) (b :: bytes) where
  printable := by
    have hprintable : ' ' ≤ c ∧ c ≤ '~' := by
      simp only [List.mem_cons, List.not_mem_nil, or_false] at hc
      rcases hc with rfl | rfl | rfl | rfl | rfl <;> decide
    exact List.forall_mem_cons.2 ⟨by decide, List.forall_mem_cons.2 ⟨hprintable, h.printable⟩⟩
  escaped := .short hc h.escaped
  read := by
    rw [hread, h.read, hb]
    rfl

theorem octal (h : Spells text bytes) :
    Spells ('\\' :: ((ProtoSchema.octal b).toList ++ text)) (b :: bytes) := by
  have hdigit (n : Nat) : '0' ≤ Nat.digitChar (n % 8) ∧ Nat.digitChar (n % 8) ≤ '7' :=
    isOctal_digitChar _ (Nat.mod_lt _ (by decide))
  have hprintable {c : Char} (hc : '0' ≤ c ∧ c ≤ '7') : ' ' ≤ c ∧ c ≤ '~' :=
    ⟨Char.le_trans (by decide) hc.1, Char.le_trans hc.2 (by decide)⟩
  rw [toList_octal]
  exact {
    printable := by
      simp only [List.cons_append, List.nil_append, List.forall_mem_cons]
      exact ⟨by decide, hprintable (hdigit _), hprintable (hdigit _), hprintable (hdigit _),
        h.printable⟩
    escaped := by
      refine .octal ?_ h.escaped
      simp only [List.forall_mem_cons]
      exact ⟨hdigit _, hdigit _, hdigit _, fun d hd ↦ absurd hd List.not_mem_nil⟩
    read := by
      rw [List.cons_append, List.cons_append, List.cons_append, List.nil_append,
        unescape?_octal (hdigit _), octalByte?_digits, h.read]
      rfl }

theorem escapeLiteralByte (h : Spells text bytes) :
    Spells ((ProtoSchema.escapeLiteralByte b).toList ++ text) (b :: bytes) := by
  unfold ProtoSchema.escapeLiteralByte
  split
  · next hb => exact .short hb (by decide) rfl h
  split
  · next hb => exact .short hb (by decide) rfl h
  split
  · next hb => exact .short hb (by decide) rfl h
  split
  · next hb => exact .short hb (by decide) rfl h
  split
  · next hb => exact .short hb (by decide) rfl h
  split
  · next hquote hslash _ _ _ hrange =>
    rw [Bool.and_eq_true, decide_eq_true_eq, decide_eq_true_eq, UInt8.le_iff_toNat_le,
      UInt8.le_iff_toNat_le] at hrange
    obtain ⟨hprintable, hc, hencode⟩ := printable_ofNat b.toNat b.toNat_lt
      ⟨hrange, fun heq ↦ hquote (UInt8.toNat_inj.1 heq), fun heq ↦ hslash (UInt8.toNat_inj.1 heq)⟩
    rw [UInt8.ofNat_toNat] at hencode
    rw [Char.toString, String.toList_singleton]
    exact .plain hprintable hc hencode h
  · rw [String.toList_append]
    exact .octal h

theorem flatMap_escapeLiteralByte (bytes : Bytes) :
    Spells (bytes.flatMap fun b ↦ (ProtoSchema.escapeLiteralByte b).toList) bytes := by
  induction bytes with
  | nil => exact .nil
  | cons b rest ih => exact ih.escapeLiteralByte

end Spells

theorem isLiteral_bytesLiteral (bytes : Bytes) : IsLiteral (bytesLiteral bytes) bytes := by
  refine ⟨_, ?_, .flatMap_escapeLiteralByte bytes⟩
  simp [bytesLiteral, String.toList_join, List.flatMap_map]

/-- **Literals of defaults are escaped reversibly.** The literal of bytes and that of a text consist
of printable ASCII characters between two double quotes, escaped where they have to be, from which
the bytes, or those that encode the text, are read back. -/
theorem isLiteral_literal (bytes : Bytes) (s : String) :
    IsLiteral (DefaultValue.bytes bytes).literal bytes ∧
      IsLiteral (DefaultValue.string s).literal s.toUTF8.toList :=
  ⟨isLiteral_bytesLiteral bytes, isLiteral_bytesLiteral _⟩

example : bytesLiteral [0x22, 0x0A, 0, 0x37, 0xC3] = "\"\\\"\\n\\0007\\303\"" := by decide

end ProtoSchema
