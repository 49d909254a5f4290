import ProtoSchema.Derive.Code
import ProtoSchema.Derive.Settings
import ProtoSchema.Types.Dump

/-!
# Derived messages

From the declaration of a struct comes its description as a message. Every field of the struct gets
an initial value; a field that is part of the message is also a member of the description, and its
initial value is what the member's slot holds. Slots are numbered in the order of the members.
-/

set_option autoImplicit false

namespace ProtoSchema.Derive

/-! ## The plan

A setting of a field decides its role. One pass goes over the fields from the first to the last, and
numbers the slots as members are met. -/

/-- How a value is taken out of a slot; each way knows the type that it asks for. -/
inductive Taking where
  | native (type : List Token)
  | foreign (type : List Token)
  | foreignOptional (element : List Token)
  | foreignList (element : List Token)
  deriving Repr

/-- How a foreign value is taken, by the wrapper that holds it. -/
def Taking.ofForeign (type : DeclaredType) : Taking :=
  match type.wrapped? "Option", type.wrapped? "Vec" with
  | some element, _ => foreignOptional element
  | none, some element => foreignList element
  | none, none => foreign type.written

/-- The initial value of a field of the struct. -/
inductive InitialValue where
  | default
  | unknownFields
  | slot (index : Nat) (taking : Taking)
  deriving Repr

/-- A field of the struct with its initial value. -/
structure Initializer where
  field : String
  value : InitialValue
  deriving Repr

/-- What a member of the description is. -/
inductive DerivedKind where
  | flatten (type : List Token)
  | field (taking : Taking) (settings : FieldSettings)

/-- A member of the description, by the field of the struct that it belongs to. -/
structure DerivedMember where
  field : String
  kind : DerivedKind

/-- What is derived for the fields of a struct. -/
structure MessagePlan where
  initializers : List Initializer
  members : List DerivedMember
  /-- The field that holds the unknown fields. -/
  unknownFields : Option String

namespace MessagePlan

/-- Adds a field in front that is no member. -/
def withInitial (plan : MessagePlan) (field : String) (value : InitialValue) : MessagePlan :=
  { plan with initializers := ⟨field, value⟩ :: plan.initializers }

/-- Adds a member in front, which has the given slot. -/
def withMember (plan : MessagePlan) (field : String) (index : Nat) (taking : Taking)
    (kind : DerivedKind) : MessagePlan :=
  { plan with
    initializers := ⟨field, .slot index taking⟩ :: plan.initializers
    members := ⟨field, kind⟩ :: plan.members }

/-- How the value of an ordinary field is taken. -/
def takingOf (field : DeclaredField) (settings : FieldSettings) : Taking :=
  if settings.foreign.isSome then .ofForeign field.type else .native field.type.written

/-- Refuses a default that no literal can denote. -/
def checkDefault (default : Option DefaultLiteral) : Except DeriveError Unit :=
  match default with
  | some (.float x) => if x.isFinite then .ok () else .error .infiniteDefault
  | _ => .ok ()

/-- The plan for the fields from the slot `index` on; `unknown` is the field before them that holds
the unknown fields. -/
def ofFields : (index : Nat) → (unknown : Option String) → List DeclaredField →
    Except DeriveError MessagePlan
  | _, unknown, [] => .ok ⟨[], [], unknown⟩
  | index, unknown, field :: rest => do
    let settings ← FieldSettings.read field.attributes
    match settings.role with
    | some .skip => return (← ofFields index unknown rest).withInitial field.name .default
    | some .unknownFields =>
      if unknown.isSome then throw .secondUnknown
      return (← ofFields index (some field.name) rest).withInitial field.name .unknownFields
    | some .flatten =>
      return (← ofFields (index + 1) unknown rest).withMember field.name index
        (.native field.type.written) (.flatten field.type.written)
    | none =>
      checkDefault settings.default
      let taking := takingOf field settings
      return (← ofFields (index + 1) unknown rest).withMember field.name index taking
        (.field taking settings)

end MessagePlan

/-! ## The code

A field that is a member is written twice: as an initial value that takes it out of a slot, and as a
member that lends it again. -/

def Taking.type : Taking → Code
  | native type => Token.codeAll type
  | foreign type => Token.codeAll type
  | foreignOptional element => Token.codeAll element
  | foreignList element => Token.codeAll element

def Taking.method : Taking → String
  | native _ => "take"
  | foreign _ => "take_foreign"
  | foreignOptional _ => "take_foreign_opt"
  | foreignList _ => "take_foreign_vec"

/-- The code that gives a field its initial value. -/
def Initializer.code (i : Initializer) : Code :=
  [i.field, ":"] ++
    match i.value with
    | .default => Code.of "::core::default::Default::default()"
    | .unknownFields => Code.of "values.take_unknown_fields()"
    | .slot index taking =>
      Code.of ("values." ++ taking.method ++ "::") ++ Code.angle taking.type
        ++ Code.round (Code.number index "usize") ++ ["?"]

def floatCode (x : Binary64) : Code :=
  match x.plain.toList with
  | '-' :: digits => ["-", String.ofList digits ++ "f64"]
  | digits => [String.ofList digits ++ "f64"]

def defaultCode (l : Library) : DefaultLiteral → Code
  | .bool b => l.info "DefaultLiteral::Bool" ++ Code.round [toString b]
  | .int n => l.info "DefaultLiteral::Int" ++ Code.round (Code.number n.toInt "i64")
  | .float x => l.info "DefaultLiteral::Float" ++ Code.round (floatCode x)
  | .text s =>
    l.info "DefaultLiteral::Str"
      ++ Code.round (l.support "Cow::Borrowed" ++ Code.round (Code.text s))

namespace Library

/-- The description of a message type that has no description of its own. -/
def foreignType (l : Library) (type : Code) : Code :=
  l.info "FieldType::Message" ++ Code.round (l.typeRef "foreign" type)

def boxed (l : Library) (code : Code) : Code := l.support "Box::new" ++ Code.round code

/-- A function of a type that can be the native type of a field. -/
def fieldFunction (l : Library) (type : Code) (name : String) : Code :=
  Code.angle (type ++ ["as"] ++ l.value "ProtoField") ++ Code.of ("::" ++ name)

end Library

/-- The code that describes the type of a member. -/
def Taking.fieldType (l : Library) (t : Taking) : Code :=
  match t with
  | native _ => l.fieldFunction t.type "field_type" ++ Code.of "()"
  | foreign _ => l.foreignType t.type
  | foreignOptional _ =>
    l.info "FieldType::Optional" ++ Code.round (l.boxed (l.foreignType t.type))
  | foreignList _ => l.info "FieldType::Repeated" ++ Code.round (l.boxed (l.foreignType t.type))

/-- The code that lends the value of a field. -/
def Taking.lend (l : Library) (field : String) (t : Taking) : Code :=
  let lender :=
    match t with
    | native _ => l.fieldFunction t.type "to_value"
    | foreign _ => l.value "ValueRef::Message"
    | foreignOptional _ => l.support "foreign_opt"
    | foreignList _ => l.support "foreign_vec"
  lender ++ Code.round (Code.of "&this." ++ [field])

/-- The code that makes something of an instance when it is of the described type. -/
def ofInstance (made : Code) : Code :=
  Code.of "value.downcast_ref::<Self>().map" ++ Code.round (Code.of "|this|" ++ made)

/-- The calls that set what the attributes of a field ask for. -/
def FieldSettings.code (l : Library) (s : FieldSettings) : Code :=
  Code.method? "with_number" (s.number.map fun n ↦ Code.number n "u32")
    ++ Code.method? "with_proto_name" (s.name.map ([·]))
    ++ Code.method? "with_scalar" (s.scalar.map fun t ↦ l.item ("schema::ScalarType::" ++ t.label))
    ++ (if s.required = some true then Code.method "with_required" ["true"] else [])
    ++ Code.method? "with_default" (s.default.map (defaultCode l))
    ++ Code.method? "with_packed" (s.packed.map fun b ↦ [toString b])
    ++ Code.method? "with_oneof" (s.oneof.map ([·]))
    ++ Code.method? "with_docs" (s.docs.map Code.text)

/-- The call that adds a member. -/
def DerivedMember.code (l : Library) (m : DerivedMember) : Code :=
  Code.method "with_member" <|
    match m.kind with
    | .flatten type =>
      l.info "MemberInfo::flatten" ++ Code.round
        (Code.text m.field ++ [","] ++ l.typeRef "of" (Token.codeAll type) ++ Code.of ", |value|"
          ++ Code.curly (ofInstance
            (l.value "ValueRef::Message" ++ Code.round (Code.of "&this." ++ [m.field])))
          ++ [","])
    | .field taking settings =>
      l.info "MemberInfo::field" ++ Code.round
        (Code.text m.field ++ [","] ++ taking.fieldType l ++ Code.of ", |value|"
          ++ ofInstance (taking.lend l m.field) ++ [","])
        ++ settings.code l

/-- The call that names the keeper of the unknown fields. -/
def unknownFieldsCode (field : String) : Code :=
  Code.method "with_unknown_fields"
    (Code.of "|value|" ++ Code.curly (ofInstance (Code.of "&this." ++ [field])))

/-- The calls that set what the attributes of a type ask for. -/
def TypeSettings.code (s : TypeSettings) : Code :=
  Code.method? "with_proto_name" (s.name.map ([·]))
    ++ Code.method? "with_docs" (s.docs.map Code.text)

namespace MessagePlan

/-- The function that builds an instance from decoded values. -/
def factory (l : Library) (plan : MessagePlan) : Code :=
  Code.of "|mut values:" ++ l.value "FieldValues" ++ ["|"] ++ Code.curly
    (Code.of "let value = Self"
      ++ Code.curly (plan.initializers.flatMap fun i ↦ i.code ++ [","]) ++ [";"]
      ++ l.support "Result::Ok"
      ++ Code.round (l.boxed ["value"] ++ ["as"] ++ l.support "Box"
        ++ Code.angle (["dyn"] ++ l.support "Any")))

def description (l : Library) (plan : MessagePlan) (settings : TypeSettings) : Code :=
  l.info "TypeInfo::message::<Self>"
    ++ Code.round
      (l.info "MessageInfo::new" ++ Code.round (plan.factory l)
        ++ plan.members.flatMap (DerivedMember.code l)
        ++ (plan.unknownFields.map unknownFieldsCode).getD [])
    ++ settings.code

def code (l : Library) (name : String) (plan : MessagePlan) (settings : TypeSettings) : Code :=
  Code.enclosed
    (Code.implementation (l.info "Typed") name
        (Code.of "#[allow(unused_mut, unused_variables)]"
          ++ l.typeInfo (plan.description l settings))
      ++ l.protoField name
        (l.info "FieldType::Message" ++ Code.round (l.typeRef "of" ["Self"]))
        (l.value "ValueRef::Message" ++ Code.round ["self"])
        (Code.of "value.into_message::<Self>()") [])

end MessagePlan

/-- The fields of a struct that can become a message. -/
def Declaration.messageFields (d : Declaration) : Except DeriveError (List DeclaredField) :=
  if d.isGeneric then .error .generic
  else
    match d.shape with
    | .struct (some fields) => .ok fields
    | .struct none => .error .unnamedFields
    | .enum _ | .union => .error .notStruct

/-- Derives the code for a message; `library` is the path to the library, if there is one. -/
def Declaration.deriveMessage (library : Except DeriveError Code) (d : Declaration) :
    Except DeriveError Code := do
  let fields ← d.messageFields
  -- Before any attribute is read, so that a missing library wins over a wrong attribute.
  let path ← library
  let settings ← TypeSettings.read d.attributes
  let plan ← MessagePlan.ofFields 0 none fields
  return plan.code ⟨path⟩ d.name settings

end ProtoSchema.Derive
