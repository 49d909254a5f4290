import Mathlib.Data.List.Induction
import Mathlib.Data.List.TakeDrop
import ProtoSchema.Derive.Grammar.Reading
import ProtoSchema.Derive.Lexer
import ProtoSchema.Proofs.Result

/-!
# Words of paths

What a name from outside comes to when it is read as a step of a path. The characters that may stand
in such a name are those of words, and hyphens. This leaves few ways to cut it: a word is taken as
far as it goes, a hyphen stands for itself, and what starts with neither is a number or cannot be
cut at all. So the first tokens are known even where the rest of the name is not looked at, and what
stands in front stays in front however the brackets behind it are nested.

A step is read from a word unless the word is reserved, and reading stops at a hyphen.
-/

set_option autoImplicit false

namespace ProtoSchema.Derive

open Text

/-- Whether a character may stand in the name of a package: in a word, or as a hyphen. -/
def standsInName (c : Char) : Bool := continuesWord c || c == '-'

variable {c : Char} {text rest : List Char}

/-! ## Characters -/

theorem continuesWord_of_startsWord (h : startsWord c = true) : continuesWord c = true := by
  unfold startsWord at h
  unfold continuesWord
  split at h
  · next hascii =>
    rw [if_pos hascii, Char.isAlphanum]
    rcases Bool.or_eq_true_iff.1 h with h | h <;> simp [h]
  · next hascii =>
    rw [if_neg hascii]
    exact (Bool.and_eq_true_iff.1 h).1

theorem standsInName_of_continuesWord (h : continuesWord c = true) : standsInName c = true :=
  Bool.or_eq_true_iff.2 (.inl h)

theorem isMark_eq_false (h : continuesWord c = true) : isMark c = false := by
  have hmarks : "~!@#$%^&*-=+|;:,<.>/?'".toList.all (!continuesWord ·) = true := by decide +kernel
  refine Bool.eq_false_iff.2 fun hmark ↦ ?_
  have hc := List.all_eq_true.1 hmarks c (List.contains_iff_mem.1 hmark)
  rw [h] at hc
  cases hc

theorem startsMark_eq_false (h : continuesWord c = true) (rest : List Char) :
    startsMark (c :: rest) = false := by
  unfold startsMark
  split
  · rfl
  · rfl
  · next heq =>
    obtain ⟨rfl, -⟩ := List.cons.inj heq
    exact isMark_eq_false h
  · next heq => cases heq

/-- The code points of gaps. -/
def gapCodes : List Nat :=
  List.range' 9 5 ++ [0x20, 0x85, 0xA0, 0x1680] ++ List.range' 0x2000 11 ++
    [0x200E, 0x200F, 0x2028, 0x2029, 0x202F, 0x205F, 0x3000]

theorem isGap_eq_false (h : continuesWord c = true) : isGap c = false := by
  -- No property of characters tells gaps from words, but there are few gaps to look at.
  have hgaps : ∀ n ∈ gapCodes, continuesWord (Char.ofNat n) = false := by decide +kernel
  refine Bool.eq_false_iff.2 fun hgap ↦ ?_
  have hmem : c.toNat ∈ gapCodes := by
    simp only [isGap, isBlank, Bool.or_eq_true, Bool.and_eq_true, decide_eq_true_eq,
      beq_iff_eq] at hgap
    simp only [gapCodes, List.mem_append, List.mem_range'_1, List.mem_cons, List.not_mem_nil]
    omega
  have hword := hgaps c.toNat hmem
  rw [Char.ofNat_toNat, h] at hword
  cases hword

theorem isDigit_eq_false (h : startsWord c = true) : c.isDigit = false := by
  have hdigits : ∀ n ∈ List.range' 48 10, startsWord (Char.ofNat n) = false := by decide +kernel
  refine Bool.eq_false_iff.2 fun hdigit ↦ ?_
  have hmem : c.toNat ∈ List.range' 48 10 := by
    rw [Char.isDigit, Bool.and_eq_true, decide_eq_true_iff, decide_eq_true_iff] at hdigit
    obtain ⟨hlow, hhigh⟩ := hdigit
    rw [ge_iff_le, UInt32.le_iff_toNat_le] at hlow
    rw [UInt32.le_iff_toNat_le] at hhigh
    exact List.mem_range'_1.2 ⟨hlow, Nat.lt_succ_of_le hhigh⟩
  have hstart := hdigits c.toNat hmem
  rw [Char.ofNat_toNat, h] at hstart
  cases hstart

theorem withoutOrderMark_of_continuesWord (hc : continuesWord c = true)
    (rest : List Char) : withoutOrderMark (c :: rest) = c :: rest := by
  unfold withoutOrderMark
  split
  · next heq =>
    obtain ⟨rfl, -⟩ := List.cons.inj heq
    exact absurd hc (by decide +kernel)
  · rfl

/-! ## Cutting names

A name is cut from its front. What starts with the start of a word is cut into that word, up to the
first hyphen or the end. -/

theorem not_mem_of_standsInName (htext : ∀ d ∈ text, standsInName d = true) {d : Char}
    (hd : standsInName d = false) : d ∉ text := by
  intro hmem
  rw [htext d hmem] at hd
  cases hd

theorem rawText_eq_none (h : '"' ∉ text) (letters : List Char) : rawText letters text = none := by
  unfold rawText
  rw [List.span_eq_takeWhile_dropWhile]
  dsimp only
  split
  · next rest heq =>
    have hmem : '"' ∈ text.dropWhile (· == '#') := by
      rw [heq]
      exact List.mem_cons_self
    exact absurd ((List.dropWhile_sublist _).mem hmem) h
  · rfl

theorem splitLiteral_of_standsInName (htext : ∀ d ∈ text, standsInName d = true) :
    splitLiteral text = if text.head?.any Char.isDigit then some (splitNumber text) else none := by
  have hquote : '"' ∉ text := not_mem_of_standsInName htext (by decide)
  have hmark : '\'' ∉ text := not_mem_of_standsInName htext (by decide)
  fun_cases splitLiteral text with
  | case1 | case2 | case3 => simp at hquote
  | case4 | case5 => simp at hmark
  | case6 rest => exact rawText_eq_none (fun h ↦ hquote (List.mem_cons_of_mem _ h)) _
  | case7 rest | case8 rest =>
    exact rawText_eq_none (fun h ↦ hquote (List.mem_cons_of_mem _ (List.mem_cons_of_mem _ h))) _
  | case9 | case10 => simp [*]
  | case11 => rfl

theorem splitAnyWord_of_standsInName (htext : ∀ d ∈ text, standsInName d = true) :
    splitAnyWord text = splitWord text := by
  have hsign : '#' ∉ text := not_mem_of_standsInName htext (by decide)
  fun_cases splitAnyWord text with
  | case1 | case2 | case3 => simp at hsign
  | case4 => rfl

/-- A name starts with a literal, a word or a hyphen, or it cannot be cut. -/
theorem nextLexemes_of_standsInName (hc : standsInName c = true) (rest : List Char) :
    nextLexemes (c :: rest) =
      match splitLiteral (c :: rest), splitAnyWord (c :: rest) with
      | some (spelling, left), _ => some ([.token (.literal (String.ofList spelling))], left)
      | none, some (word, left) => some ([.token (.word (String.ofList word))], left)
      | none, none =>
        if c = '-' then some ([.token (.mark c (startsMark rest))], rest) else none := by
  have hgap : isGap c = false := by
    rcases Bool.or_eq_true_iff.1 hc with hc | hc
    · exact isGap_eq_false hc
    · rw [eq_of_beq hc]
      decide
  have hquote : c ≠ '\'' := by
    rintro rfl
    exact absurd hc (by decide)
  have hmark : isMark c = true ↔ c = '-' := by
    constructor
    · intro hmark
      rcases Bool.or_eq_true_iff.1 hc with hc | hc
      · rw [isMark_eq_false hc] at hmark
        cases hmark
      · exact eq_of_beq hc
    · rintro rfl
      decide
  unfold nextLexemes
  split
  case h_11 heq =>
    obtain ⟨rfl, rfl⟩ := List.cons.inj heq
    rw [hgap, if_neg Bool.false_ne_true, if_neg hquote]
    cases splitLiteral (c :: rest) with
    | some found => rfl
    | none =>
      cases splitAnyWord (c :: rest) with
      | some found => rfl
      | none => exact if_congr hmark rfl rfl
  case h_1 h => cases h
  -- None of the characters that have rules of their own may stand in a name.
  all_goals next h => (obtain ⟨rfl, -⟩ := List.cons.inj h; exact absurd hc (by decide))

theorem nextLexemes_word (hc : startsWord c = true)
    (htext : ∀ d ∈ c :: rest, standsInName d = true) :
    nextLexemes (c :: rest) =
      some ([.token (.word (String.ofList (c :: rest.takeWhile continuesWord)))],
        rest.dropWhile continuesWord) := by
  have hword := continuesWord_of_startsWord hc
  rw [nextLexemes_of_standsInName (htext c List.mem_cons_self),
    splitLiteral_of_standsInName htext, splitAnyWord_of_standsInName htext, splitWord, if_pos hc,
    List.span_eq_takeWhile_dropWhile, List.takeWhile_cons_of_pos hword,
    List.dropWhile_cons_of_pos hword]
  simp only [List.head?_cons, Option.any_some, isDigit_eq_false hc, Bool.false_eq_true, if_false]

theorem nextLexemes_hyphen (htext : ∀ d ∈ '-' :: rest, standsInName d = true) :
    nextLexemes ('-' :: rest) = some ([.token (.mark '-' (startsMark rest))], rest) := by
  rw [nextLexemes_of_standsInName (by decide), splitLiteral_of_standsInName htext,
    splitAnyWord_of_standsInName htext, splitWord]
  rfl

theorem nextLexemes_of_not_startsWord (hc : startsWord c = false) (hhyphen : c ≠ '-')
    (htext : ∀ d ∈ c :: rest, standsInName d = true) :
    nextLexemes (c :: rest) = none ∨
      ∃ spelling left, nextLexemes (c :: rest) = some ([.token (.literal spelling)], left) := by
  rw [nextLexemes_of_standsInName (htext c List.mem_cons_self),
    splitLiteral_of_standsInName htext, splitAnyWord_of_standsInName htext, splitWord, hc,
    if_neg Bool.false_ne_true]
  split
  · exact .inr ⟨_, _, rfl⟩
  · next h => cases h
  · exact .inl (if_neg hhyphen)

/-! ## Tokens in front

Tokens are cut first and nested afterwards. Neither looks at what stands further behind. -/

/-- A text starts with tokens, in front of whatever its rest is cut into. -/
inductive Leads : List Char → List Token → List Char → Prop
  | nil {text : List Char} : Leads text [] text
  | cons {c : Char} {rest left text : List Char} {t : Token} {ts : List Token}
      (h : nextLexemes (c :: rest) = some ([.token t], left)) (hrest : Leads left ts text) :
      Leads (c :: rest) (t :: ts) text

theorem lexemes_succ (steps : Nat) (c : Char) (rest : List Char) :
    lexemes (steps + 1) (c :: rest) =
      (nextLexemes (c :: rest)).bind fun (found, left) ↦
        (lexemes steps left).map (found ++ ·) := by
  rw [lexemes]
  · cases nextLexemes (c :: rest) with
    | none => rfl
    | some p => cases h : lexemes steps p.2 <;> simp [h]
  · exact List.cons_ne_nil c rest

theorem nest_tokens (groups : List (Bracket × List Token)) (behind ts : List Token) :
    nest groups behind (ts.map Lexeme.token).reverse = nest groups (ts ++ behind) [] := by
  induction ts using List.reverseRecOn generalizing behind with
  | nil => rfl
  | append_singleton ts t ih =>
    rw [List.map_append, List.map_singleton, List.reverse_append, List.reverse_singleton,
      List.singleton_append, nest, ih, List.append_assoc, List.singleton_append]

/-- However what follows is nested, tokens in front stay in front: a group that is still open when
they are reached is never opened. -/
theorem nest_append_tokens (groups : List (Bracket × List Token)) (behind ts : List Token)
    (ls : List Lexeme) :
    nest groups behind (ls ++ (ts.map Lexeme.token).reverse) =
      (nest groups behind ls).map (ts ++ ·) := by
  fun_induction nest groups behind ls with
  | case1 | case2 =>
    rw [List.nil_append, nest_tokens, nest]
    rfl
  | case3 groups behind t rest ih => rw [List.cons_append, nest, ih]
  | case4 groups behind b rest ih => rw [List.cons_append, nest, ih]
  | case5 =>
    rw [List.cons_append, nest]
    rfl
  | case6 | case7 =>
    rw [List.cons_append, nest]
    simp [*]

namespace Leads

variable {left : List Char} {ts : List Token}

theorem lexemes_eq (h : Leads text ts left) (steps : Nat) :
    lexemes steps text = none ∨
      ∃ more, lexemes steps text = some (ts.map Lexeme.token ++ more) := by
  induction h generalizing steps with
  | @nil text =>
    cases lexemes steps text with
    | none => exact .inl rfl
    | some more => exact .inr ⟨more, rfl⟩
  | cons hnext _ ih =>
    cases steps with
    | zero => exact .inl (by rw [lexemes])
    | succ steps =>
      rw [lexemes_succ, hnext, Option.bind_some]
      dsimp only
      rcases ih steps with hrest | ⟨more, hrest⟩ <;> rw [hrest]
      · exact .inl rfl
      · exact .inr ⟨more, rfl⟩

theorem lexemes_eq_some (h : Leads text ts []) {steps : Nat} (hsteps : ts.length ≤ steps) :
    lexemes steps text = some (ts.map Lexeme.token) := by
  -- The induction is on what leads the text, so its end must be a variable.
  generalize hleft : ([] : List Char) = left at h
  induction h generalizing steps with
  | nil =>
    subst hleft
    cases steps <;> rfl
  | cons hnext _ ih =>
    cases steps with
    | zero => exact absurd hsteps (Nat.not_succ_le_zero _)
    | succ steps =>
      rw [lexemes_succ, hnext, Option.bind_some]
      dsimp only
      rw [ih (Nat.le_of_succ_le_succ hsteps) hleft]
      rfl

theorem tokens?_eq {s : String} (h : Leads (withoutOrderMark s.toList) ts left) :
    tokens? s = none ∨ ∃ more, tokens? s = some (ts ++ more) := by
  unfold tokens?
  dsimp only
  rcases h.lexemes_eq (withoutOrderMark s.toList).length with hlexemes | ⟨more, hlexemes⟩
  · exact .inl (by rw [hlexemes]; rfl)
  · rw [hlexemes, Option.bind_eq_bind, Option.bind_some, List.reverse_append, nest_append_tokens]
    cases nest [] [] more.reverse with
    | none => exact .inl rfl
    | some more => exact .inr ⟨more, rfl⟩

theorem tokens?_eq_some {s : String} (h : Leads (withoutOrderMark s.toList) ts [])
    (hsteps : ts.length ≤ (withoutOrderMark s.toList).length) : tokens? s = some ts := by
  unfold tokens?
  dsimp only
  rw [h.lexemes_eq_some hsteps, Option.bind_eq_bind, Option.bind_some, nest_tokens,
    List.append_nil, nest]

end Leads

theorem tokens?_eq_none {s : String} (htext : withoutOrderMark s.toList = c :: rest)
    (hnext : nextLexemes (c :: rest) = none) : tokens? s = none := by
  unfold tokens?
  dsimp only
  rw [htext, List.length_cons, lexemes_succ, hnext]
  rfl

/-! ## Reading steps

A step is a word that is not reserved, or one of a few that are. Behind it stands nothing, or a
hyphen, with which no step can go on. -/

namespace Scan

variable {α β : Type} {p : Scan α} {start c : Cursor}

theorem bind_of_ok {a : α} (h : p start = .ok (a, c)) (f : α → Scan β) :
    (p >>= f) start = f a c := by
  change Except.bind (p start) _ = _
  rw [h]
  rfl

theorem bind_of_error {e : DeriveError} (h : p start = .error e) (f : α → Scan β) :
    (p >>= f) start = .error e := by
  change Except.bind (p start) _ = _
  rw [h]
  rfl

variable {tokens written : List Token} {a : α}

theorem whole_of_ok (h : p { ahead := tokens } = .ok (a, ⟨[], written, none⟩)) :
    whole p tokens = .ok (a, written.reverse) := by
  rw [whole, h]
  rfl

theorem whole_of_ahead {t : Token} {rest : List Token}
    (h : p { ahead := tokens } = .ok (a, ⟨t :: rest, written, none⟩)) :
    whole p tokens = .error (.grammar (.unexpected false)) := by
  rw [whole, h]
  rfl

theorem whole_of_error {e : DeriveError} (h : p { ahead := tokens } = .error e) :
    whole p tokens = .error e := by
  rw [whole, h]
  rfl

end Scan

/-- The reserved words that may be steps of a path all the same. -/
def reservedSteps : List String := ["super", "self", "crate", "try"]

/-- Whether a word may be a step of a path. -/
def IsStep (word : String) : Prop :=
  word ∈ reservedSteps ∨ word = "Self" ∨ word ∉ reservedWords

instance (word : String) : Decidable (IsStep word) := inferInstanceAs (Decidable (_ ∨ _))

/-- Nothing follows a step, or a hyphen. -/
inductive EndsStep : List Token → Prop
  | nil : EndsStep []
  | hyphen (joined : Bool) (rest : List Token) : EndsStep (.mark '-' joined :: rest)

section

variable {r : Readers} {word : String} {ahead written : List Token} {stray : Option Bracket}

theorem seesAny_words (words : List String) :
    Scan.seesAny (words.map Front.spelled) ⟨.word word :: ahead, written, stray⟩ =
      .ok (decide (word ∈ words), ⟨.word word :: ahead, written, stray⟩) := by
  have hany : (words.map Front.spelled).any (·.startsOff (.word word :: ahead)) =
      decide (word ∈ words) := by
    rw [List.any_map, Bool.eq_iff_iff, List.any_eq_true, decide_eq_true_iff]
    constructor
    · rintro ⟨w, hw, hsame⟩
      rwa [eq_of_beq hsame]
    · intro hw
      exact ⟨word, hw, beq_self_eq_true word⟩
  rw [← hany]
  rfl

theorem name_word : Scan.name ⟨.word word :: ahead, written, stray⟩ =
    if word ∈ reservedWords then .error (.grammar (.reservedName word))
    else .ok (word, ⟨ahead, .word word :: written, stray⟩) := by
  have hsees : Scan.sees .name ⟨.word word :: ahead, written, stray⟩ =
      .ok (!decide (word ∈ reservedWords), ⟨.word word :: ahead, written, stray⟩) := by
    rw [← List.elem_eq_mem]
    rfl
  unfold Scan.name
  rw [Scan.bind_of_ok hsees]
  by_cases hword : word ∈ reservedWords
  · rw [if_pos hword, decide_eq_true hword]
    rfl
  · rw [if_neg hword, decide_eq_false hword]
    rfl

theorem segment_word (h : EndsStep ahead) :
    Grammar.segment r false ⟨.word word :: ahead, written, stray⟩ =
      if IsStep word then .ok (⟨word, .none⟩, ⟨ahead, .word word :: written, stray⟩)
      else .error (.grammar (.reservedName word)) := by
  have hplaces : Scan.seesAny ["super", "self", "crate", "try"]
      ⟨.word word :: ahead, written, stray⟩ =
        .ok (decide (word ∈ reservedSteps), ⟨.word word :: ahead, written, stray⟩) :=
    seesAny_words reservedSteps
  have hsees : Scan.sees "Self" ⟨.word word :: ahead, written, stray⟩ =
      .ok (word == "Self", ⟨.word word :: ahead, written, stray⟩) := rfl
  unfold Grammar.segment
  rw [Scan.bind_of_ok hplaces]
  by_cases hplace : word ∈ reservedSteps
  · have hstep : IsStep word := .inl hplace
    rw [if_pos hstep, decide_eq_true hplace]
    rfl
  rw [decide_eq_false hplace, if_neg Bool.false_ne_true, Scan.bind_of_ok hsees]
  by_cases hself : word = "Self"
  · have hstep : IsStep word := .inr (.inl hself)
    rw [if_pos hstep, beq_iff_eq.2 hself]
    cases h <;> rfl
  rw [beq_eq_false_iff_ne.2 hself]
  by_cases hreserved : word ∈ reservedWords
  · have hstep : ¬IsStep word := by
      rintro (h | h | h)
      · exact hplace h
      · exact hself h
      · exact h hreserved
    rw [if_neg hstep]
    refine Scan.bind_of_error ?_ _
    rw [name_word, if_pos hreserved]
  · have hstep : IsStep word := .inr (.inr hreserved)
    have hname : Scan.name ⟨.word word :: ahead, written, stray⟩ =
        .ok (word, ⟨ahead, .word word :: written, stray⟩) := by
      rw [name_word, if_neg hreserved]
    rw [if_pos hstep]
    refine (Scan.bind_of_ok hname _).trans ?_
    cases h <;> rfl

theorem segment_nil : ∃ e, Grammar.segment r false ⟨[], written, stray⟩ = .error e := ⟨_, rfl⟩

theorem segment_literal (spelling : String) : ∃ e,
    Grammar.segment r false ⟨.literal spelling :: ahead, written, stray⟩ = .error e :=
  ⟨_, rfl⟩

/-- A path of one step is read up to what ends the step. -/
theorem wordPath_word (h : EndsStep ahead) :
    Grammar.wordPath r false
        ⟨.mark ':' true :: .mark ':' false :: .word word :: ahead, written, stray⟩ =
      if IsStep word then
        .ok (⟨false, true, [⟨word, .none⟩]⟩,
          ⟨ahead, .word word :: .mark ':' false :: .mark ':' true :: written, stray⟩)
      else .error (.grammar (.reservedName word)) := by
  have haccept : Scan.accept "::"
      ⟨.mark ':' true :: .mark ':' false :: .word word :: ahead, written, stray⟩ =
        .ok (true, ⟨.word word :: ahead, .mark ':' false :: .mark ':' true :: written, stray⟩) :=
    rfl
  unfold Grammar.wordPath
  rw [Scan.bind_of_ok haccept]
  by_cases hstep : IsStep word
  · rw [if_pos hstep]
    refine (Scan.bind_of_ok ((segment_word h).trans (if_pos hstep)) _).trans ?_
    cases h <;> rfl
  · rw [if_neg hstep]
    exact Scan.bind_of_error ((segment_word h).trans (if_neg hstep)) _

end

end ProtoSchema.Derive
