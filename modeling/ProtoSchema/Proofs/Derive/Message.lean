import ProtoSchema.Proofs.Derive.Code
import ProtoSchema.Proofs.Result

/-!
# Members and slots

One pass over the fields of a struct writes two lists, the members of the description and the
initial values of the fields. What ties them together is a number alone: an initial value names the
slot that it takes, and decoding fills the slots in the order of the members. So the pass has to
count the members that it has written, whatever stands between them. With the members before a
field given, the count is their number, and every initial value behind it takes the slot of its own
member.

That is a fact about the plan for the code, and the code has to follow the plan. What it spells for
each initial value and for each member is told apart from the functions that write it, so a slot is
the number that stands in the text, and a member the call that stands there.
-/

set_option autoImplicit false

/-! ## Lining up

A member is numbered by its place among the members, and an initial value by the slot that it
takes. -/

namespace ProtoSchema.Derive

/-- A way of taking a value goes with the type of a field: what is foreign is taken out of an option
or a list if that is how the type is written, and nothing else is. -/
inductive Taking.Suits (type : DeclaredType) : (isForeign : Bool) → Taking → Prop
  | native : Suits type false (.native type.written)
  | foreignOptional {element : List Token}
      (h : type.lastWord = some ⟨"Option", .angle [.type element]⟩) :
      Suits type true (.foreignOptional element)
  | foreignList {element : List Token}
      (h : type.lastWord = some ⟨"Vec", .angle [.type element]⟩) :
      Suits type true (.foreignList element)
  | foreign (hoption : ∀ element, type.lastWord ≠ some ⟨"Option", .angle [.type element]⟩)
      (hlist : ∀ element, type.lastWord ≠ some ⟨"Vec", .angle [.type element]⟩) :
      Suits type true (.foreign type.written)

/-- Whether an initial value is the unknown fields. -/
def Initializer.keepsUnknown (i : Initializer) : Bool := i.value matches .unknownFields

namespace MessagePlan

variable {index : Nat} {unknown : Option String} {field : DeclaredField}
  {fields rest : List DeclaredField} {plan : MessagePlan}

/-! ## One field

What one field adds is looked up in its settings: an initial value in any case, and at most one
member. -/

end MessagePlan

/-! ## The text of the code

What is emitted is spelled out here, token by token. Around the fields the text is always the same.
Between the braces behind `Self` stand the initial values, each with the name of its field in front
and a comma behind it; behind the factory stand the calls that add the members, and the one that
names the keeper of the unknown fields. An initial value out of a slot is a call on the decoded
values that is given the number of the slot; the call that adds a member lends the very field that
the member is named for. -/

/-- The description of a foreign message type. -/
def foreignMessage (l : Library) (type : Code) : Code :=
  l.named ["info", "FieldType", "Message"] ++ ["("]
    ++ l.named ["info", "TypeRef", "foreign"] ++ [":", ":", "<"] ++ type ++ [">", "(", ")", ")"]

/-- How a value is taken, described and lent: the method that takes it and the type that this is
asked for, the description of its type, and the function that lends it. -/
inductive Taking.Spells (l : Library) :
    Taking → (method : String) → (asked description lender : Code) → Prop
  | native {type : List Token} {description lender : Code}
      (hdescription : description = ["<"] ++ Token.codeAll type ++ ["as"]
        ++ l.named ["value", "ProtoField"] ++ [">", ":", ":", "field_type", "(", ")"])
      (hlender : lender = ["<"] ++ Token.codeAll type ++ ["as"]
        ++ l.named ["value", "ProtoField"] ++ [">", ":", ":", "to_value"]) :
      Spells l (.native type) "take" (Token.codeAll type) description lender
  | foreign {type : List Token} :
      Spells l (.foreign type) "take_foreign" (Token.codeAll type)
        (foreignMessage l (Token.codeAll type)) (l.named ["value", "ValueRef", "Message"])
  | foreignOptional {element : List Token} {description : Code}
      (hdescription : description = l.named ["info", "FieldType", "Optional"] ++ ["("]
        ++ l.named ["__macro_exports", "Box", "new"] ++ ["("]
        ++ foreignMessage l (Token.codeAll element) ++ [")", ")"]) :
      Spells l (.foreignOptional element) "take_foreign_opt" (Token.codeAll element) description
        (l.named ["__macro_exports", "foreign_opt"])
  | foreignList {element : List Token} {description : Code}
      (hdescription : description = l.named ["info", "FieldType", "Repeated"] ++ ["("]
        ++ l.named ["__macro_exports", "Box", "new"] ++ ["("]
        ++ foreignMessage l (Token.codeAll element) ++ [")", ")"]) :
      Spells l (.foreignList element) "take_foreign_vec" (Token.codeAll element) description
        (l.named ["__macro_exports", "foreign_vec"])

/-- The code of an initial value. -/
inductive InitialValue.Spells (l : Library) : InitialValue → Code → Prop
  | default :
      Spells l .default
        [":", ":", "core", ":", ":", "default", ":", ":", "Default", ":", ":", "default", "(", ")"]
  | unknownFields : Spells l .unknownFields ["values", ".", "take_unknown_fields", "(", ")"]
  | slot {index : Nat} {taking : Taking} {method : String} {asked description lender number : Code}
      (htaking : taking.Spells l method asked description lender)
      (hnumber : SpellsNumber "usize" index number) :
      Spells l (.slot index taking)
        (["values", ".", method, ":", ":", "<"] ++ asked ++ [">", "("] ++ number ++ [")", "?"])

/-- The code that initializes a field. -/
def Initializer.Spells (l : Library) (i : Initializer) (code : Code) : Prop :=
  ∃ value, i.value.Spells l value ∧ code = [i.field, ":"] ++ value ++ [","]

/-- The code that makes something of `this`, an instance of the described type. -/
def fromThis (made : Code) : Code :=
  ["value", ".", "downcast_ref", ":", ":", "<", "Self", ">", "(", ")", ".", "map", "("]
    ++ ["|", "this", "|"] ++ made ++ [")"]

/-- The call that adds a member. -/
inductive DerivedMember.Spells (l : Library) : DerivedMember → Code → Prop
  | flatten {field name : String} {type : List Token} {code : Code} (hname : Quotes field name)
      (hcode : code = [".", "with_member", "("] ++ l.named ["info", "MemberInfo", "flatten"]
        ++ ["(", name, ","] ++ l.named ["info", "TypeRef", "of"] ++ [":", ":", "<"]
        ++ Token.codeAll type ++ [">", "(", ")", ","] ++ ["|", "value", "|", "\x7b"]
        ++ fromThis
          (l.named ["value", "ValueRef", "Message"] ++ ["(", "&", "this", ".", field, ")"])
        ++ ["\x7d", ",", ")"] ++ [")"]) :
      Spells l ⟨field, .flatten type⟩ code
  | field {field name method : String} {taking : Taking} {settings : FieldSettings}
      {asked description lender code : Code} (hname : Quotes field name)
      (htaking : taking.Spells l method asked description lender)
      (hcode : code = [".", "with_member", "("] ++ l.named ["info", "MemberInfo", "field"]
        ++ ["(", name, ","] ++ description ++ [","] ++ ["|", "value", "|"]
        ++ fromThis (lender ++ ["(", "&", "this", ".", field, ")"]) ++ [",", ")"]
        ++ settings.code l ++ [")"]) :
      Spells l ⟨field, .field taking settings⟩ code

/-- The call that names the keeper of the unknown fields. -/
def SpellsKeeper (field : String) (code : Code) : Prop :=
  code = [".", "with_unknown_fields", "("] ++ ["|", "value", "|", "\x7b"]
    ++ fromThis ["&", "this", ".", field] ++ ["\x7d"] ++ [")"]

namespace MessagePlan

/-- The whole code, around that of the initial values and the calls behind the factory. -/
def text (l : Library) (name : String) (settings : TypeSettings) (initializers calls : Code) :
    Code :=
  ["const", "_", ":", "(", ")", "=", "\x7b"]
    ++ ["impl"] ++ l.named ["info", "Typed"] ++ ["for", name, "\x7b"]
    ++ ["#", "[", "allow", "(", "unused_mut", ",", "unused_variables", ")", "]"]
    ++ typeInfoText l
      (l.named ["info", "TypeInfo", "message"] ++ [":", ":", "<", "Self", ">", "("]
        ++ l.named ["info", "MessageInfo", "new"] ++ ["("]
        ++ ["|", "mut", "values", ":"] ++ l.named ["value", "FieldValues"] ++ ["|", "\x7b"]
        ++ ["let", "value", "=", "Self", "\x7b"] ++ initializers ++ ["\x7d", ";"]
        ++ l.named ["__macro_exports", "Result", "Ok"] ++ ["("]
        ++ l.named ["__macro_exports", "Box", "new"] ++ ["(", "value", ")", "as"]
        ++ l.named ["__macro_exports", "Box"] ++ ["<", "dyn"] ++ l.named ["__macro_exports", "Any"]
        ++ [">", ")", "\x7d", ")"] ++ calls ++ [")"] ++ callsNaming settings.name settings.docs)
    ++ ["\x7d"]
    ++ protoFieldText l name
      (l.named ["info", "FieldType", "Message"] ++ ["("] ++ l.named ["info", "TypeRef", "of"]
        ++ [":", ":", "<", "Self", ">", "(", ")", ")"])
      (l.named ["value", "ValueRef", "Message"] ++ ["(", "self", ")"])
      ["value", ".", "into_message", ":", ":", "<", "Self", ">", "(", ")"] []
    ++ ["\x7d", ";"]

/-- The code spells out the plan: there is one initial value for each of the initializers and one
call for each of the members, in their order, and one for the keeper of the unknown fields if there
is a keeper. -/
def Spells (l : Library) (name : String) (settings : TypeSettings) (plan : MessagePlan)
    (code : Code) : Prop :=
  ∃ initializers members keepers : List Code,
    List.Forall₂ (Initializer.Spells l) plan.initializers initializers ∧
    List.Forall₂ (DerivedMember.Spells l) plan.members members ∧
    List.Forall₂ SpellsKeeper plan.unknownFields.toList keepers ∧
    code = text l name settings initializers.flatten (members.flatten ++ keepers.flatten)

end MessagePlan

section

variable (l : Library)

theorem foreignType_eq (type : Code) : l.foreignType type = foreignMessage l type := by
  simp [Library.foreignType, Library.typeRef, foreignMessage]

theorem Taking.exists_spells (taking : Taking) : ∃ lender,
    taking.Spells l taking.method taking.type (taking.fieldType l) lender ∧
      ∀ field, taking.lend l field = lender ++ ["(", "&", "this", ".", field, ")"] := by
  cases taking with
  | native type =>
    refine ⟨_, .native ?_ rfl, fun field ↦ ?_⟩
    · simp [fieldType, Library.fieldFunction, Taking.type]
    · simp [lend, Library.fieldFunction, Taking.type]
  | foreign type =>
    refine ⟨l.named ["value", "ValueRef", "Message"], ?_, fun field ↦ ?_⟩
    · rw [fieldType, foreignType_eq]
      exact .foreign
    · simp [lend]
  | foreignOptional element =>
    refine ⟨_, .foreignOptional ?_, fun field ↦ ?_⟩
    · simp [fieldType, Library.boxed, foreignType_eq, Taking.type]
    · simp [lend]
  | foreignList element =>
    refine ⟨_, .foreignList ?_, fun field ↦ ?_⟩
    · simp [fieldType, Library.boxed, foreignType_eq, Taking.type]
    · simp [lend]

theorem ofInstance_eq (made : Code) : ofInstance made = fromThis made := by
  simp [ofInstance, fromThis]

theorem Initializer.spells_code (i : Initializer) : i.Spells l (i.code ++ [","]) := by
  obtain ⟨field, value⟩ := i
  cases value with
  | default => exact ⟨_, .default, by simp [code]⟩
  | unknownFields => exact ⟨_, .unknownFields, by simp [code]⟩
  | slot index taking =>
    obtain ⟨lender, htaking, -⟩ := taking.exists_spells l
    refine ⟨_, .slot htaking (spellsNumber_number index "usize"), ?_⟩
    cases taking <;> simp [code, Taking.method]

theorem DerivedMember.spells_code (m : DerivedMember) : m.Spells l (m.code l) := by
  obtain ⟨field, kind⟩ := m
  cases kind with
  | flatten type =>
    refine .flatten (quotes_literal field) ?_
    simp [code, Code.method, Code.text, Library.typeRef, ofInstance_eq]
  | field taking settings =>
    obtain ⟨lender, htaking, hlend⟩ := taking.exists_spells l
    refine .field (quotes_literal field) htaking ?_
    simp [code, Code.method, Code.text, ofInstance_eq, hlend]

theorem spellsKeeper_code (field : String) : SpellsKeeper field (unknownFieldsCode field) := by
  simp [SpellsKeeper, unknownFieldsCode, Code.method, ofInstance_eq]

namespace MessagePlan

set_option maxRecDepth 10000 in
theorem code_eq_text (name : String) (settings : TypeSettings) (plan : MessagePlan) :
    plan.code l name settings = text l name settings
      (plan.initializers.flatMap fun i ↦ i.code ++ [","])
      (plan.members.flatMap (DerivedMember.code l)
        ++ plan.unknownFields.toList.flatMap unknownFieldsCode) := by
  have hkeeper : (plan.unknownFields.map unknownFieldsCode).getD [] =
      plan.unknownFields.toList.flatMap unknownFieldsCode := by
    cases plan.unknownFields with
    | none => rfl
    | some keeper => exact (List.append_nil _).symm
  unfold code description factory text
  rw [hkeeper, TypeSettings.code_eq]
  generalize plan.initializers.flatMap _ = initializers
  generalize plan.members.flatMap _ = members
  generalize plan.unknownFields.toList.flatMap _ = keepers
  rw [typeInfo_eq_text, protoField_eq_text]
  unfold Code.enclosed Code.implementation Library.typeRef Library.boxed
  simp

theorem spells_code (name : String) (settings : TypeSettings) (plan : MessagePlan) :
    plan.Spells l name settings (plan.code l name settings) := by
  refine ⟨plan.initializers.map fun i ↦ i.code ++ [","], plan.members.map (DerivedMember.code l),
    plan.unknownFields.toList.map unknownFieldsCode, ?_, ?_, ?_, ?_⟩
  · exact List.forall₂_map_right_iff.2 (List.forall₂_same.2 fun i _ ↦ i.spells_code l)
  · exact List.forall₂_map_right_iff.2 (List.forall₂_same.2 fun m _ ↦ m.spells_code l)
  · exact List.forall₂_map_right_iff.2 (List.forall₂_same.2 fun k _ ↦ spellsKeeper_code k)
  · rw [code_eq_text]
    simp only [List.flatMap_def]

end MessagePlan

end

end ProtoSchema.Derive
