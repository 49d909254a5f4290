import ProtoSchema.Proofs.Schema.Literal
import ProtoSchema.Proofs.Schema.Tokens

/-!
# Lines that close what they open

A line of a schema file that is no comment opens nothing that it does not close, as long as the
names in it are plain: without quotes and without slashes. Numbers and keywords are plain anyway,
and the literal of a default is one literal whatever it spells, because the quotes inside are
escaped.
-/

set_option autoImplicit false

namespace ProtoSchema

open Place Text

/-! ## Plain texts

Digits, signs and keywords are plain, and so is a number that is put together from them. -/

/-- A text without quotes and slashes. -/
def Plain (text : List Char) : Prop := ∀ c ∈ text, c ≠ '"' ∧ c ≠ '\'' ∧ c ≠ '/'

instance : DecidablePred Plain := List.decidableBAll fun c ↦ c ≠ '"' ∧ c ≠ '\'' ∧ c ≠ '/'

namespace Plain

variable {a b : List Char}

theorem append (ha : Plain a) (hb : Plain b) : Plain (a ++ b) :=
  List.forall_mem_append.2 ⟨ha, hb⟩

theorem subset (h : Plain b) (hab : ∀ c ∈ a, c ∈ b) : Plain a := fun c hc ↦ h c (hab c hc)

theorem of_isDigit (h : ∀ c ∈ a, c.isDigit = true) : Plain a := by
  intro c hc
  have := h c hc
  refine ⟨?_, ?_, ?_⟩ <;> (rintro rfl; exact absurd this (by decide))

end Plain

theorem plain_nat (n : Nat) : Plain (toString n).toList := by
  rw [Nat.toString_eq_ofList_toDigits, String.toList_ofList]
  exact .of_isDigit fun c hc ↦ Nat.isDigit_of_mem_toDigits (by decide) (by decide) hc

theorem plain_int (n : Int) : Plain (toString n).toList := by
  have hrepr : toString n = n.repr := rfl
  rw [hrepr, Int.repr_eq_if]
  split
  · exact plain_nat _
  · rw [String.toList_append]
    exact .append (by decide) (plain_nat _)

theorem plain_pushn {s : String} (h : Plain s.toList) (n : Nat) :
    Plain (s.pushn '0' n).toList := by
  induction n with
  | zero => exact h
  | succ n ih =>
    have hpush : s.pushn '0' (n + 1) = (s.pushn '0' n).push '0' := rfl
    rw [hpush, String.toList_push]
    exact ih.append (by decide)

namespace Floating

theorem plain_take (n k : Nat) : Plain ((toString n).take k).toString.toList := by
  rw [String.Slice.toString_eq, String.toList_copy_take]
  exact (plain_nat n).subset fun _ ↦ List.mem_of_mem_take

theorem plain_drop (n k : Nat) : Plain ((toString n).drop k).toString.toList := by
  rw [String.Slice.toString_eq, String.toList_copy_drop]
  exact (plain_nat n).subset fun _ ↦ List.mem_of_mem_drop

theorem plain_positional (d : Decimal) (keepsPoint : Bool) :
    Plain (d.positional keepsPoint).toList := by
  unfold Decimal.positional
  dsimp only
  split
  · simp only [String.toList_append]
    exact .append (.append (by decide) (plain_pushn (by decide) _)) (plain_nat _)
  · split
    · rw [String.toList_append]
      refine .append (plain_pushn (plain_nat _) _) ?_
      cases keepsPoint <;> decide
    · simp only [String.toList_append]
      exact .append (.append (plain_take _ _) (by decide)) (plain_drop _ _)

theorem plain_scientific (d : Decimal) : Plain d.scientific.toList := by
  unfold Decimal.scientific
  simp only [String.toList_append]
  refine .append (.append (.append (plain_take _ _) ?_) (by decide)) (plain_int _)
  split
  · decide
  · rw [String.toList_append]
    exact .append (by decide) (plain_drop _ _)

end Floating

theorem Binary64.plain_exact (x : Binary64) : Plain x.exact.toList := by
  unfold exact Floating.Format.render
  split
  · decide
  · split <;> decide
  · extract_lets d body
    have hbody : Plain body.toList := by
      unfold body
      split
      · decide
      · split
        · exact Floating.plain_scientific d
        · exact Floating.plain_positional d _
    split
    · rw [String.toList_append]
      exact .append (by decide) hbody
    · exact hbody

theorem plain_floatLiteral (x : Binary64) : Plain (floatLiteral x).toList := by
  unfold floatLiteral
  split
  · decide
  · split <;> decide
  · exact x.plain_exact

theorem plain_keyword (s : Scalar) : Plain s.keyword.toList := by
  cases s <;> decide

theorem plain_label (c : Cardinality) : Plain c.label.toList := by
  cases c <;> decide

/-! ## Pieces of lines

A line is put together from pieces that are read from code to code. The only place where it is left
in between is inside the literal of a text or of bytes, and there no quote stands without an
escape. -/

/-- A reader stands in code, in between or in a word. -/
def Place.InCode (p : Place) : Prop := p = between ∨ ∃ chars, p = word chars

/-- A piece that is read from code to code. -/
def KeepsCode (text : List Char) : Prop := ∀ p : Place, p.InCode → (p.read text).2.InCode

theorem Place.InCode.next_eq {p : Place} (h : p.InCode) (c : Char) :
    (p.next c).2 = (start c).2 ∨ continuesWord c = true ∧ (p.next c).2.InCode := by
  rcases h with rfl | ⟨chars, rfl⟩
  · exact .inl rfl
  · by_cases hc : continuesWord c = true
    · rw [next, if_pos hc]
      exact .inr ⟨hc, .inr ⟨_, rfl⟩⟩
    · rw [next, if_neg hc]
      exact .inl rfl

theorem Place.InCode.next_of_not_continuesWord {p : Place} (h : p.InCode) {c : Char}
    (hc : continuesWord c = false) : (p.next c).2 = (start c).2 := by
  rcases h.next_eq c with heq | ⟨hword, -⟩
  · exact heq
  · rw [hc] at hword
    cases hword

/-- A text without double quotes and backslashes. -/
def Unquoted (text : List Char) : Prop := ∀ c ∈ text, c ≠ '"' ∧ c ≠ '\\'

instance : DecidablePred Unquoted := List.decidableBAll fun c ↦ c ≠ '"' ∧ c ≠ '\\'

/-- A piece that is read from a literal to the same literal. -/
def StaysQuoted (text : List Char) : Prop :=
  ∀ chars, ∃ chars', ((literal '"' chars).read text).2 = literal '"' chars'

namespace StaysQuoted

variable {a : List Char}

theorem unquoted (h : Unquoted a) : StaysQuoted a := by
  intro chars
  induction a generalizing chars with
  | nil => exact ⟨chars, rfl⟩
  | cons c rest ih =>
    obtain ⟨⟨hquote, hslash⟩, hrest⟩ := List.forall_mem_cons.1 h
    simpa [Place.read, next, hquote, hslash] using ih hrest (chars ++ [c])

theorem escaped (h : Escaped a) : StaysQuoted a := by
  intro chars
  induction h generalizing chars with
  | nil => exact ⟨chars, rfl⟩
  | @plain c rest hc _ ih =>
    simp only [List.mem_cons, not_or] at hc
    simpa [Place.read, next, hc.1, hc.2.1] using ih (chars ++ [c])
  | @short c rest hc _ ih =>
    simpa [Place.read, next] using ih (chars ++ ['\\', c])
  | @octal a b c rest hdigits _ ih =>
    have hplain : ∀ d ∈ [a, b, c], d ≠ '"' ∧ d ≠ '\\' := by
      intro d hd
      have := hdigits d hd
      constructor <;> (rintro rfl; exact absurd this (by decide))
    simp only [List.forall_mem_cons] at hplain
    simpa [Place.read, next, hplain] using ih (chars ++ ['\\', a] ++ [b] ++ [c])

end StaysQuoted

namespace KeepsCode

variable {a b : List Char}

theorem append (ha : KeepsCode a) (hb : KeepsCode b) : KeepsCode (a ++ b) := by
  intro p hp
  rw [read_append]
  exact hb _ (ha p hp)

theorem plain (h : Plain a) : KeepsCode a := by
  induction a with
  | nil => exact fun p hp ↦ hp
  | cons c rest ih =>
    obtain ⟨⟨hdouble, hsingle, hslash⟩, hrest⟩ := List.forall_mem_cons.1 h
    intro p hp
    refine ih hrest _ ?_
    have hstart : (start c).2.InCode := by
      unfold start
      simp only [hdouble, hsingle, hslash, or_self, if_false]
      split
      · exact .inl rfl
      · split
        · exact .inl rfl
        · exact .inr ⟨_, rfl⟩
    rcases hp.next_eq c with heq | ⟨-, hcode⟩
    · rwa [heq]
    · exact hcode

theorem quoted (h : StaysQuoted a) : KeepsCode ('"' :: (a ++ ['"'])) := by
  intro p hp
  obtain ⟨chars, hinner⟩ := h []
  rw [Place.read, hp.next_of_not_continuesWord (by decide)]
  change ((Place.literal '"' []).read (a ++ ['"'])).2.InCode
  rw [read_append, hinner]
  exact .inl rfl

theorem literal {text : String} {bytes : Bytes} (h : IsLiteral text bytes) :
    KeepsCode text.toList := by
  obtain ⟨inner, htext, hspells⟩ := h
  rw [htext]
  exact quoted (.escaped hspells.escaped)

theorem closed {l : String} (h : KeepsCode l.toList) : Closed (textOf [l]) := by
  rw [textOf_singleton, Closed, read_append]
  exact (h between (.inl rfl)).next_of_not_continuesWord (c := '\n') (by decide)

end KeepsCode

/-! ## Names -/

theorem plain_of_isIdentifierList {text : List Char} (h : isIdentifierList text = true) :
    Plain text := by
  have hchar {c : Char} (hc : continuesIdentifier c = true) : c ≠ '"' ∧ c ≠ '\'' ∧ c ≠ '/' := by
    refine ⟨?_, ?_, ?_⟩ <;> (rintro rfl; exact absurd hc (by decide))
  cases text with
  | nil => cases h
  | cons c rest =>
    rw [isIdentifierList, Bool.and_eq_true, List.all_eq_true] at h
    obtain ⟨hstart, hrest⟩ := h
    refine List.forall_mem_cons.2 ⟨hchar ?_, fun c hc ↦ hchar (hrest c hc)⟩
    rw [startsIdentifier, Bool.or_eq_true] at hstart
    rw [continuesIdentifier, Bool.or_eq_true, Char.isAlphanum, Bool.or_eq_true]
    exact hstart.imp_left .inl

theorem plain_of_isIdentifier {name : String} (h : isIdentifier name = true) :
    Plain name.toList :=
  plain_of_isIdentifierList h

theorem plain_referenceText {package : Option String} {name : String} (h : Plain name.toList) :
    Plain (referenceText package name).toList := by
  unfold referenceText
  split
  · exact h
  · next package =>
    unfold dropLead?
    split
    · rw [Option.getD_some, String.toList_ofList]
      exact h.subset fun _ ↦ List.mem_of_mem_drop
    · rw [Option.getD_none, String.toList_append]
      exact .append (by decide) h

/-! ## Lines -/

/-- The names that a field copies: its own, that of its type and that of an enum default. -/
structure Field.PlainNames (f : Field) : Prop where
  name : Plain f.name.toList
  type : ∀ name, f.type.target? = some name → Plain name.toList
  default : ∀ name n, f.default = some (.enum name n) → Plain name.toList

theorem DefaultValue.keepsCode_literal {d : DefaultValue}
    (h : ∀ name n, d = .enum name n → Plain name.toList) : KeepsCode d.literal.toList := by
  cases d with
  | bool b => cases b <;> exact .plain (by decide)
  | int n => exact .plain (plain_int _)
  | uint n => exact .plain (plain_nat _)
  | float x => exact .plain (plain_floatLiteral x)
  | string s => exact .literal (isLiteral_bytesLiteral _)
  | bytes b => exact .literal (isLiteral_bytesLiteral _)
  | enum name n => exact .plain (h name n rfl)

namespace Field

variable {package : Option String} {f : Field}

theorem plain_typeText (h : f.PlainNames) : Plain (f.typeText package).toList := by
  have htype : Plain (f.type.text package).toList := by
    unfold ValueType.text
    split
    · exact plain_keyword _
    · next name htype => exact plain_referenceText (h.type name (by rw [htype]; rfl))
    · next name htype => exact plain_referenceText (h.type name (by rw [htype]; rfl))
  unfold typeText
  split
  · simp only [String.toList_append]
    exact .append (.append (.append (.append (by decide) (plain_keyword _)) (by decide)) htype)
      (by decide)
  · rw [String.toList_append]
    refine .append ?_ htype
    split
    · rw [String.toList_append]
      exact .append (plain_label _) (by decide)
    · decide

theorem keepsCode_optionText (h : f.PlainNames) : KeepsCode f.optionText.toList := by
  unfold optionText
  split
  · next d hd =>
    simp only [String.toList_append]
    refine .append (.append (.plain (by decide)) ?_) (.plain (by decide))
    exact d.keepsCode_literal fun name n heq ↦ h.default name n (heq ▸ hd)
  · split <;> exact .plain (by decide)

theorem keepsCode_declaration (h : f.PlainNames) : KeepsCode (f.declaration package).toList := by
  unfold declaration
  simp only [String.toList_append]
  refine .append (.append (.append (.append (.append (.append ?_ ?_) ?_) ?_) ?_) ?_) ?_
  · exact .plain (plain_typeText h)
  · exact .plain (by decide)
  · exact .plain h.name
  · exact .plain (by decide)
  · exact .plain (plain_nat _)
  · exact keepsCode_optionText h
  · exact .plain (by decide)

end Field

end ProtoSchema
