import Mathlib.Data.List.Basic
import Mathlib.Data.List.Infix
import ProtoSchema.Schema.Printer

/-!
# Tokens of schema texts

A schema text is read one character at a time, and where a reader stands is all that it knows about
what came before: in a word, in a string literal, in a comment, or in between. Nothing is looked
ahead, so a text may be cut anywhere and read piece by piece. Comments give no tokens: a block
comment goes from `/*` to the next `*/` and a line comment from `//` to the end of the line, unless
they stand in a string literal.

Two properties of a piece are what the rest is about. A silent piece gives no tokens, and a closed
one leaves the reader where it started, in between, so that what it gives does not depend on what
stands behind it.
-/

set_option autoImplicit false

namespace ProtoSchema

open Text

/-! ## Reading -/

/-- A token of a schema text. -/
inductive SchemaToken where
  /-- A name, a keyword or a number. -/
  | word (chars : List Char)
  /-- A string literal, with its escapes as they are written. -/
  | literal (chars : List Char)
  | symbol (c : Char)
  deriving DecidableEq, Repr

/-- Where a reader stands. -/
inductive Place where
  | between
  | word (chars : List Char)
  | literal (quote : Char) (chars : List Char)
  /-- Behind a backslash in a literal. -/
  | escape (quote : Char) (chars : List Char)
  /-- Behind a slash that may open a comment. -/
  | slash
  | lineComment
  | blockComment
  /-- Behind a star that may close a comment. -/
  | star
  deriving DecidableEq, Repr

namespace Place

/-- Whether a character is a token of its own. -/
def isSymbol (c : Char) : Bool := "{}[]()<>=;,".toList.contains c

/-- What a character does where no token is under way. -/
def start (c : Char) : List SchemaToken × Place :=
  if isBlank c then ([], between)
  else if c = '"' ∨ c = '\'' then ([], literal c [])
  else if c = '/' then ([], slash)
  else if isSymbol c then ([.symbol c], between)
  else ([], word [c])

/-- Whether a character goes on with a word. -/
def continuesWord (c : Char) : Bool := (start c).2 matches .word _

/-- What a character does: the tokens that end before it or with it, and where the reader is
then. -/
def next : Place → Char → List SchemaToken × Place
  | between, c => start c
  | word chars, c =>
    if continuesWord c then ([], word (chars ++ [c]))
    else (.word chars :: (start c).1, (start c).2)
  | literal quote chars, c =>
    if c = quote then ([.literal chars], between)
    else if c = '\\' then ([], escape quote chars)
    else ([], literal quote (chars ++ [c]))
  | escape quote chars, c => ([], literal quote (chars ++ ['\\', c]))
  | slash, c =>
    if c = '*' then ([], blockComment)
    else if c = '/' then ([], lineComment)
    else (.symbol '/' :: (start c).1, (start c).2)
  | lineComment, c => ([], if c = '\n' then between else lineComment)
  | blockComment, c => ([], if c = '*' then star else blockComment)
  | star, c => ([], if c = '/' then between else if c = '*' then star else blockComment)

/-- Reads a piece of text. -/
def read : Place → List Char → List SchemaToken × Place
  | p, [] => ([], p)
  | p, c :: rest =>
    ((p.next c).1 ++ (read (p.next c).2 rest).1, (read (p.next c).2 rest).2)

/-- The token that ends with the text. -/
def finish : Place → List SchemaToken
  | word chars => [.word chars]
  | literal _ chars => [.literal chars]
  | escape _ chars => [.literal (chars ++ ['\\'])]
  | slash => [.symbol '/']
  | between | lineComment | blockComment | star => []

@[simp] theorem read_nil (p : Place) : p.read [] = ([], p) := rfl

theorem read_append (p : Place) (a b : List Char) :
    p.read (a ++ b) =
      ((p.read a).1 ++ ((p.read a).2.read b).1, ((p.read a).2.read b).2) := by
  induction a generalizing p with
  | nil => rfl
  | cons c rest ih => simp only [List.cons_append, read, ih, List.append_assoc]

end Place

open Place

/-- The tokens of a text, which comments are no part of. -/
def tokens (text : List Char) : List SchemaToken :=
  (between.read text).1 ++ (between.read text).2.finish

/-- The text of some lines. -/
def textOf (lines : List String) : List Char := lines.flatMap fun l ↦ l.toList ++ ['\n']

theorem textOf_append (a b : List String) : textOf (a ++ b) = textOf a ++ textOf b :=
  List.flatMap_append

theorem textOf_cons (l : String) (rest : List String) :
    textOf (l :: rest) = textOf [l] ++ textOf rest :=
  textOf_append [l] rest

theorem textOf_singleton (l : String) : textOf [l] = l.toList ++ ['\n'] := List.append_nil _

theorem toList_render (f : SchemaFile) : f.render.toList = textOf f.lines := by
  simp [SchemaFile.render, textOf, String.toList_join, List.flatMap_map]

/-! ## Pieces

Pieces are put together as long as each leaves the reader in between. -/

/-- A piece gives no tokens and leaves the reader in between. -/
def Silent (text : List Char) : Prop := between.read text = ([], between)

/-- A piece leaves the reader in between. -/
def Closed (text : List Char) : Prop := (between.read text).2 = between

theorem Silent.nil : Silent [] := rfl

theorem Silent.append {a b : List Char} (ha : Silent a) (hb : Silent b) : Silent (a ++ b) := by
  unfold Silent at *
  rw [read_append, ha, hb]
  rfl

theorem tokens_append_of_silent {a : List Char} (h : Silent a) (b : List Char) :
    tokens (a ++ b) = tokens b := by
  unfold Silent at h
  rw [tokens, read_append, h]
  rfl

theorem tokens_append_of_closed {a : List Char} (h : Closed a) (b : List Char) :
    tokens (a ++ b) = (between.read a).1 ++ tokens b := by
  unfold Closed at h
  rw [tokens, read_append, h, List.append_assoc]
  rfl

/-! ## Lines with comments between them -/

/-- Lines with and without silent lines between them. -/
inductive Commented : (commented bare : List String) → Prop
  | nil : Commented [] []
  | line {a b : List String} (l : String) (h : Commented a b) : Commented (l :: a) (l :: b)
  | comment {c a b : List String} (hc : Silent (textOf c)) (h : Commented a b) :
      Commented (c ++ a) b

namespace Commented

variable {a b c d : List String}

theorem refl (a : List String) : Commented a a := by
  induction a with
  | nil => exact .nil
  | cons l rest ih => exact .line l ih

theorem append (h : Commented a b) (h' : Commented c d) : Commented (a ++ c) (b ++ d) := by
  induction h with
  | nil => exact h'
  | line l _ ih => exact .line l ih
  | comment hc _ ih =>
    rw [List.append_assoc]
    exact .comment hc ih

theorem of_silent (hc : Silent (textOf c)) : Commented c [] := by
  have h := comment hc nil
  rwa [List.append_nil] at h

theorem flatMap {α β : Type} {as : List α} {f : α → List String} {g : β → List String} {k : α → β}
    (h : ∀ x ∈ as, Commented (f x) (g (k x))) :
    Commented (as.flatMap f) ((as.map k).flatMap g) := by
  induction as with
  | nil => exact .nil
  | cons x rest ih =>
    exact (h x List.mem_cons_self).append (ih fun y hy ↦ h y (List.mem_cons_of_mem x hy))

/-- **Silent lines give no tokens** wherever they stand, provided that every other line closes what
it opens. -/
theorem tokens_eq (h : Commented a b) (hb : ∀ l ∈ b, Closed (textOf [l])) :
    tokens (textOf a) = tokens (textOf b) := by
  induction h with
  | nil => rfl
  | @line a b l _ ih =>
    obtain ⟨hl, hb⟩ := List.forall_mem_cons.1 hb
    rw [textOf_cons l a, textOf_cons l b, tokens_append_of_closed hl, tokens_append_of_closed hl,
      ih hb]
  | comment hc _ ih => rw [textOf_append, tokens_append_of_silent hc, ih hb]

end Commented

/-! ## Comments

What would close a comment is a star with a slash behind it. Behind the star that opens a line of it
stands a space, or the end of the line. -/

/-- A text does not close a comment in which it stands. -/
def StaysInside (text : List Char) : Prop := ¬['*', '/'] <:+: text

instance : DecidablePred StaysInside := fun text ↦
  inferInstanceAs (Decidable ¬['*', '/'] <:+: text)

theorem StaysInside.of_isInfix {a b : List Char} (h : StaysInside b) (hab : a <:+: b) :
    StaysInside a :=
  fun h' ↦ h (h'.trans hab)

theorem read_of_staysInside (text : List Char) :
    (StaysInside text → ∃ p, blockComment.read text = ([], p) ∧ (p = blockComment ∨ p = star)) ∧
      (StaysInside ('*' :: text) →
        ∃ p, star.read text = ([], p) ∧ (p = blockComment ∨ p = star)) := by
  -- A star may be the first half of the end, so both places are carried along.
  induction text with
  | nil => exact ⟨fun _ ↦ ⟨_, rfl, .inl rfl⟩, fun _ ↦ ⟨_, rfl, .inr rfl⟩⟩
  | cons c rest ih =>
    obtain ⟨hblock, hstar⟩ := ih
    have hrest {a b : List Char} (h : StaysInside (a ++ b)) : StaysInside b :=
      h.of_isInfix (List.suffix_append a b).isInfix
    have hclose (h : StaysInside ('*' :: c :: rest)) : c ≠ '/' := by
      rintro rfl
      exact h (List.prefix_append ['*', '/'] rest).isInfix
    constructor
    · intro h
      by_cases hc : c = '*'
      · subst hc
        obtain ⟨p, hp, hplace⟩ := hstar h
        exact ⟨p, by simp [Place.read, next, hp], hplace⟩
      · obtain ⟨p, hp, hplace⟩ := hblock (hrest (a := [c]) h)
        exact ⟨p, by simp [Place.read, next, hc, hp], hplace⟩
    · intro h
      by_cases hc : c = '*'
      · subst hc
        obtain ⟨p, hp, hplace⟩ := hstar (hrest (a := ['*']) h)
        exact ⟨p, by simp [Place.read, next, hp], hplace⟩
      · obtain ⟨p, hp, hplace⟩ := hblock (hrest (a := ['*', c]) h)
        exact ⟨p, by simp [Place.read, next, hc, hclose h, hp], hplace⟩

/-- A piece that stands in a block comment. -/
def InComment (text : List Char) : Prop := blockComment.read text = ([], blockComment)

theorem InComment.append {a b : List Char} (ha : InComment a) (hb : InComment b) :
    InComment (a ++ b) := by
  unfold InComment at *
  rw [read_append, ha, hb]
  rfl

theorem InComment.lines {ls : List String} (h : ∀ l ∈ ls, InComment (textOf [l])) :
    InComment (textOf ls) := by
  induction ls with
  | nil => rfl
  | cons l rest ih =>
    obtain ⟨hl, hrest⟩ := List.forall_mem_cons.1 h
    rw [textOf_cons]
    exact hl.append (ih hrest)

theorem StaysInside.inComment {text : List Char} (h : StaysInside text) :
    InComment (text ++ ['\n']) := by
  obtain ⟨p, hp, hplace⟩ := (read_of_staysInside text).1 h
  unfold InComment
  rw [read_append, hp]
  rcases hplace with rfl | rfl <;> rfl

/-- A text of nothing but spaces. -/
def Spaces (text : List Char) : Prop := ∀ c ∈ text, c = ' '

instance : DecidablePred Spaces := List.decidableBAll (· = ' ')

theorem read_spaces {text : List Char} (h : Spaces text) :
    Silent text ∧ InComment text := by
  induction text with
  | nil => exact ⟨rfl, rfl⟩
  | cons c rest ih =>
    obtain ⟨rfl, hrest⟩ := List.forall_mem_cons.1 h
    obtain ⟨hsilent, hcomment⟩ := ih hrest
    unfold Silent InComment at *
    constructor
    · rw [Place.read, show between.next ' ' = ([], between) by decide, hsilent]
      rfl
    · rw [Place.read, show blockComment.next ' ' = ([], blockComment) by decide, hcomment]
      rfl

/-! ## Documentation

Each line of documentation is trimmed and put behind a star, so only what stands within one line can
close the comment. -/

theorem splitAt_pieces (separator : Char) (text : List Char) :
    ∃ first others, splitAt separator text = first :: others ∧ first <+: text ∧
      ∀ part ∈ others, part <:+: text := by
  induction text with
  | nil => exact ⟨[], [], rfl, List.prefix_refl _, List.forall_mem_nil _⟩
  | cons c rest ih =>
    obtain ⟨first, others, hsplit, hfirst, hothers⟩ := ih
    have hrest : rest <:+: c :: rest := (List.suffix_cons c rest).isInfix
    rw [splitAt, hsplit]
    by_cases hc : c = separator
    · refine ⟨[], first :: others, if_pos hc, List.nil_prefix, List.forall_mem_cons.2 ⟨?_, ?_⟩⟩
      · exact hfirst.isInfix.trans hrest
      · exact fun part hpart ↦ (hothers part hpart).trans hrest
    · exact ⟨c :: first, others, if_neg hc, (List.prefix_cons_inj c).2 hfirst,
        fun part hpart ↦ (hothers part hpart).trans hrest⟩

theorem infix_of_mem_lines {text line : List Char} (h : line ∈ lines text) : line <:+: text := by
  obtain ⟨first, others, hsplit, hfirst, hothers⟩ := splitAt_pieces '\n' text
  have hmem : line ∈ first :: others := by
    rw [lines, hsplit] at h
    split at h
    · exact List.mem_of_mem_dropLast h
    · exact h
  rcases List.mem_cons.1 hmem with rfl | hmem
  · exact hfirst.isInfix
  · exact hothers line hmem

theorem trimEnd_isPrefix (line : List Char) : trimEnd line <+: line := by
  rw [trimEnd, ← List.reverse_suffix, List.reverse_reverse]
  exact List.dropWhile_suffix _

/-- A line of documentation inside the comment. -/
def docLine (indent : String) (line : List Char) : String :=
  match trimEnd line with
  | [] => indent ++ " *"
  | text => indent ++ " * " ++ String.ofList text

theorem docLines_some (indent d : String) : docLines indent (some d) =
    [indent ++ "/**"] ++ (lines d.toList).map (docLine indent) ++ [indent ++ " */"] :=
  rfl

theorem toList_docLine (indent : String) (line : List Char) :
    (docLine indent line).toList = indent.toList ++ [' ', '*'] ∨
      (docLine indent line).toList = indent.toList ++ ([' ', '*', ' '] ++ trimEnd line) := by
  unfold docLine
  split
  · exact .inl (by simp)
  · exact .inr (by simp)

/-- **Documentation is a comment** from its first to its last line, unless it closes the comment
itself. -/
theorem silent_docLines {indent : String} {docs : Option String}
    (hindent : Spaces indent.toList)
    (hdocs : ∀ d, docs = some d → StaysInside d.toList) :
    Silent (textOf (docLines indent docs)) := by
  cases docs with
  | none => exact .nil
  | some d =>
    obtain ⟨hsilent, hcomment⟩ := read_spaces hindent
    have hopening : between.read (textOf [indent ++ "/**"]) = ([], blockComment) := by
      rw [textOf_singleton, String.toList_append, List.append_assoc, read_append, hsilent]
      decide
    have hclosing : blockComment.read (textOf [indent ++ " */"]) = ([], between) := by
      rw [textOf_singleton, String.toList_append, List.append_assoc, read_append, hcomment]
      decide
    have hline : ∀ line ∈ lines d.toList, InComment (textOf [docLine indent line]) := by
      intro line hline
      have hstays : StaysInside (trimEnd line) := (hdocs d rfl).of_isInfix
        ((trimEnd_isPrefix line).isInfix.trans (infix_of_mem_lines hline))
      rw [textOf_singleton]
      rcases toList_docLine indent line with heq | heq <;>
        rw [heq, List.append_assoc]
      · exact hcomment.append rfl
      · rw [List.append_assoc]
        exact hcomment.append (.append rfl hstays.inComment)
    have hbody : InComment (textOf ((lines d.toList).map (docLine indent))) :=
      .lines (List.forall_mem_map.2 hline)
    unfold InComment at hbody
    rw [docLines_some, textOf_append, textOf_append, Silent, read_append, read_append, hopening,
      hbody, hclosing]
    rfl

end ProtoSchema
