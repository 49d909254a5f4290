import ProtoSchema.Derive.Message

/-!
# The text of derived code

Derived code is put together from pieces, and the pieces from smaller ones. To say what the code
does, its text has to be in view: which tokens stand in it, and in which order. The text is spelled
out here token by token, so that nothing that is said of derived code goes back to the functions
that put it together.

Three things in the text vary and are no tokens of the declaration: items of the library, which
stand behind the path that leads to the library; numbers, which are spelled with digits and the name
of their type, and with a sign in front if there is one; and names in quotes.
-/

set_option autoImplicit false

namespace ProtoSchema.Text

/-! ## Names in quotes

A name needs no escape as long as its characters are visible ones of ASCII, and neither a quote nor
a backslash. No identifier of ASCII contains any other. -/

/-- A name that can stand between quotes as it is. -/
def NeedsNoEscape (name : String) : Prop :=
  ∀ c ∈ name.toList, 0x20 < c.toNat ∧ c.toNat < 0x7F ∧ c ≠ '"' ∧ c ≠ '\\'

theorem isCombining_of_lt {c : Char} (h : c.toNat < 0x7F) : isCombining c = false := by
  have hfrom : ∀ range ∈ graphemeExtendRanges, 0x7F ≤ range.1 := by decide +kernel
  rw [isCombining, isGraphemeExtend, Bool.and_eq_false_iff]
  refine .inl (List.any_eq_false.2 fun range hrange hin ↦ ?_)
  have hlow := of_decide_eq_true (Bool.and_eq_true_iff.1 hin).1
  exact absurd h (Nat.not_lt.2 (Nat.le_trans (hfrom range hrange) hlow))

theorem escapeChar_of_visible {c : Char} (hlow : 0x20 < c.toNat) (hhigh : c.toNat < 0x7F)
    (hquote : c ≠ '"') (hslash : c ≠ '\\') : escapeChar c = c.toString := by
  have hne : ∀ d : Char, d.toNat ≤ 0x20 → c ≠ d := by
    rintro d hd rfl
    exact absurd hlow (Nat.not_lt.2 hd)
  have hprintable : isPrintable c = true := by
    rw [isPrintable, if_pos hhigh]
    exact decide_eq_true (Nat.le_of_lt hlow)
  rw [escapeChar, if_neg hquote, if_neg hslash, if_neg (hne _ (by decide)),
    if_neg (hne _ (by decide)), if_neg (hne _ (by decide)), if_neg (by omega), hprintable,
    isCombining_of_lt hhigh]
  rfl

theorem join_toString (cs : List Char) : String.join (cs.map Char.toString) = String.ofList cs := by
  rw [← String.toList_inj, String.toList_join, String.toList_ofList, List.flatMap_map]
  simp only [Char.toString, String.toList_singleton, List.flatMap_singleton']

theorem literal_of_needsNoEscape {name : String} (h : NeedsNoEscape name) :
    literal name = "\"" ++ name ++ "\"" := by
  have hgo : ∀ cs : List Char, (∀ c ∈ cs, c ∈ name.toList) →
      literal.go cs = cs.map Char.toString := by
    intro cs hcs
    induction cs with
    | nil => rfl
    | cons c rest ih =>
      obtain ⟨hlow, hhigh, hquote, hslash⟩ := h c (hcs c List.mem_cons_self)
      have hzero : (c.toNat = 0 && (rest.head?.map isOctalDigit).getD false) = false := by
        rw [Bool.and_eq_false_iff]
        exact .inl (decide_eq_false (by omega))
      rw [literal.go, ih fun d hd ↦ hcs d (List.mem_cons_of_mem _ hd), hzero, List.map_cons,
        escapeChar_of_visible hlow hhigh hquote hslash]
      rfl
  rw [literal, hgo _ fun _ hc ↦ hc, join_toString, String.ofList_toList]

end ProtoSchema.Text

namespace ProtoSchema.Derive

/-! ## Numbers, names and items -/

/-- The code spells a whole number with the name of its type. -/
inductive SpellsNumber (type : String) : Int → Code → Prop
  | nonnegative (n : Nat) : SpellsNumber type n [toString n ++ type]
  | negative {n : Nat} (h : 0 < n) : SpellsNumber type (-n) ["-", toString n ++ type]

theorem spellsNumber_number (n : Int) (type : String) :
    SpellsNumber type n (Code.number n type) := by
  rw [Code.number]
  rcases Int.lt_or_le n 0 with hneg | hnonneg
  · obtain ⟨m, rfl⟩ : ∃ m : Nat, n = -m := ⟨n.natAbs, by omega⟩
    rw [if_pos hneg, Int.natAbs_neg, Int.natAbs_natCast]
    exact .negative (by omega)
  · obtain ⟨m, rfl⟩ : ∃ m : Nat, n = m := ⟨n.natAbs, by omega⟩
    rw [if_neg (Int.not_lt.2 hnonneg), Int.natAbs_natCast]
    exact .nonnegative m

/-- The literal stands for the name: it is the name between quotes, unless that needs an escape. -/
def Quotes (name literal : String) : Prop :=
  Text.NeedsNoEscape name → literal = "\"" ++ name ++ "\""

theorem quotes_literal (name : String) : Quotes name (Text.literal name) :=
  Text.literal_of_needsNoEscape

/-- An item of the library, by the names that lead to it from the library's own path. -/
def Library.named (l : Library) (names : List String) : Code :=
  l.path ++ names.flatMap fun name ↦ [":", ":", name]

/-- The calls that set a name, which is spelled as a literal already, and a documentation. -/
def callsNaming (name docs : Option String) : Code :=
  (name.elim [] fun literal ↦ [".", "with_proto_name", "(", literal, ")"])
    ++ docs.elim [] fun text ↦ [".", "with_docs", "(", Text.literal text, ")"]

/-- The function that lends the description of a type. -/
def typeInfoText (l : Library) (description : Code) : Code :=
  ["fn", "type_info", "(", ")", "-", ">", "&", "'", "static"]
    ++ l.named ["info", "TypeInfo"] ++ ["\x7b"]
    ++ ["static", "CELL", ":"] ++ l.named ["info", "TypeInfoCell"] ++ ["="]
    ++ l.named ["info", "TypeInfoCell", "new"] ++ ["(", ")", ";"]
    ++ ["CELL", ".", "get_or_init", "(", "|", "|", "\x7b"] ++ description ++ ["\x7d", ")", "\x7d"]

/-- The implementation that makes a type the native type of a field: the type of the field, the
value that is made of `self` and what is made of `value`, and what else there is to it. -/
def protoFieldText (l : Library) (name : String) (fieldType toValue fromValue more : Code) : Code :=
  ["impl"] ++ l.named ["value", "ProtoField"] ++ ["for", name, "\x7b"]
    ++ ["#", "[", "inline", "]", "fn", "field_type", "(", ")", "-", ">"]
    ++ l.named ["info", "FieldType"] ++ ["\x7b"] ++ fieldType ++ ["\x7d"]
    ++ ["#", "[", "inline", "]", "fn", "to_value", "(", "&", "self", ")", "-", ">"]
    ++ l.named ["value", "ValueRef"] ++ ["<", "'", "_", ">", "\x7b"] ++ toValue ++ ["\x7d"]
    ++ ["#", "[", "inline", "]", "fn", "from_value", "(", "value", ":"]
    ++ l.named ["value", "Value"] ++ [")", "-", ">"]
    ++ l.named ["__macro_exports", "Result"] ++ ["<", "Self", ","]
    ++ l.named ["error", "ValueError"] ++ [">", "\x7b"] ++ fromValue ++ ["\x7d"] ++ more ++ ["\x7d"]

/-! ## Writing out pieces

Each piece that code is put together from is written out as its tokens, and so is a text without
literals, by cutting it character by character. -/

namespace Code

@[simp] theorem of_eq (text : String) : of text = cut [] text.toList := rfl

@[simp] theorem cut_nil (word : List Char) : cut word [] = cut.close word := rfl

@[simp] theorem cut_cons (word : List Char) (c : Char) (rest : List Char) :
    cut word (c :: rest) =
      if c.isAlphanum || c == '_' then cut (c :: word) rest
      else if c = ' ' then cut.close word ++ cut [] rest
      else cut.close word ++ c.toString :: cut [] rest := by
  rw [cut]

@[simp] theorem close_eq (word : List Char) :
    cut.close word = if word.isEmpty then [] else [String.ofList word.reverse] := rfl

@[simp] theorem round_eq (code : Code) : round code = "(" :: (code ++ [")"]) := rfl

@[simp] theorem curly_eq (code : Code) : curly code = "\x7b" :: (code ++ ["\x7d"]) := rfl

@[simp] theorem angle_eq (code : Code) : angle code = "<" :: (code ++ [">"]) := rfl

end Code

namespace Library

variable (l : Library)

@[simp] theorem named_eq (names : List String) :
    l.named names = l.path ++ names.flatMap fun name ↦ [":", ":", name] := rfl

@[simp] theorem item_eq (name : String) : l.item name = l.path ++ ":" :: ":" :: Code.of name := by
  simp [item]

@[simp] theorem info_eq (name : String) :
    l.info name = l.path ++ ":" :: ":" :: "info" :: ":" :: ":" :: Code.of name := by
  simp [info]

@[simp] theorem value_eq (name : String) :
    l.value name = l.path ++ ":" :: ":" :: "value" :: ":" :: ":" :: Code.of name := by
  simp [value]

@[simp] theorem support_eq (name : String) :
    l.support name = l.path ++ ":" :: ":" :: "__macro_exports" :: ":" :: ":" :: Code.of name := by
  simp [support]

end Library

theorem method?_naming (name docs : Option String) :
    Code.method? "with_proto_name" (name.map ([·])) ++
      Code.method? "with_docs" (docs.map Code.text) =
      callsNaming name docs := by
  cases name <;> cases docs <;> rfl

theorem TypeSettings.code_eq (settings : TypeSettings) :
    settings.code = callsNaming settings.name settings.docs :=
  method?_naming settings.name settings.docs

section

variable (l : Library)

theorem typeInfo_eq_text (description : Code) :
    l.typeInfo description = typeInfoText l description := by
  unfold Library.typeInfo typeInfoText Code.function
  simp

set_option maxRecDepth 1000 in
theorem protoField_eq_text (name : String) (fieldType toValue fromValue more : Code) :
    l.protoField name fieldType toValue fromValue more =
      protoFieldText l name fieldType toValue fromValue more := by
  unfold Library.protoField protoFieldText Code.implementation Code.function Code.inlined
  simp

end

end ProtoSchema.Derive
