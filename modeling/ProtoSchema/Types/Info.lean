import ProtoSchema.Text.Name
import ProtoSchema.Types.Reference
import ProtoSchema.Value.FieldValues

/-!
# Type descriptions

What is declared about a native type: its names, and for a message its members with the functions
that take an instance apart and put one together, for an enum its values. Nothing is checked here.
A getter never returns a value that nests as deeply as the instance it reads, so taking instances
apart again and again comes to an end.
-/

set_option autoImplicit false

namespace ProtoSchema

open Wire

/-- Reads one member out of an instance. Nothing is read from an instance of another type. -/
structure Getter where
  read : Instance → Option Value
  depth_lt : ∀ i v, read i = some v → v.depth < i.depth

/-- Builds an instance from decoded member values. -/
abbrev Factory := FieldValues → Except FactoryError Instance

namespace Getter

/-- The member at a position of a record of the given type. -/
def member (type : TypeId) (index : Nat) : Getter where
  read
    | .record type' members _ _ => if type' = type then members[index]?.join else none
    | _ => none
  depth_lt i v h := by
    split at h
    · next type' members _ _ =>
      split at h
      · have hm : some v ∈ members := by
          rw [Option.join_eq_some_iff] at h
          exact List.mem_of_getElem? h
        have := Value.depth_le_membersDepth hm
        rw [Instance.depth]
        omega
      · cases h
    · cases h

end Getter

/-- A factory of records that stores what it is handed: every value in its member, nothing where
none came, and the unknown fields. -/
def Factory.storing (type : TypeId) : Factory := fun values ↦
  .ok (.record type (values.slots.map fun v ↦ some (v.getD .absent)) [] values.unknown)

/-- Lends the unknown fields of the records of a type. -/
def unknownOfRecord (type : TypeId) : Instance → Option UnknownFields
  | .record type' _ _ unknown => if type' = type then some unknown else none
  | _ => none

/-! ## Members and values -/

/-- A default as it is declared, before it is checked against its field. -/
inductive DefaultLiteral where
  | bool (b : Bool)
  | int (n : Int64)
  | float (x : Binary64)
  /-- A text, bytes, or the name of an enum value. -/
  | text (s : String)
  deriving DecidableEq, Repr

inductive MemberKind where
  | field (type : FieldType)
  /-- A supertype whose fields become fields of the declaring message. -/
  | flatten (parent : TypeRef)
  deriving DecidableEq, Repr

/-- A declared member of a message type. -/
structure Member where
  name : String
  kind : MemberKind
  getter : Getter
  number : Option Nat := none
  schemaName : Option String := none
  /-- The scalar type to use instead of the natural one. -/
  scalar : Option Scalar := none
  required : Bool := false
  default : Option DefaultLiteral := none
  packed : Option Bool := none
  oneof : Option String := none
  docs : Option String := none

namespace Member

/-- The name of the field in the schema. -/
def fieldName (m : Member) : String := m.schemaName.getD m.name

/-- The declared shape; a supertype has the shape of a message. -/
def type (m : Member) : FieldType :=
  match m.kind with
  | .field type => type
  | .flatten parent => .message parent

def isFlatten (m : Member) : Bool :=
  match m.kind with
  | .field _ => false
  | .flatten _ => true

end Member

/-- The members of a message type and how its instances are built. -/
structure MessageInfo where
  members : List Member
  factory : Factory
  /-- The members that the factory asks for by name. -/
  factoryParams : Option (List String) := none
  /-- Lends the unknown fields that an instance retains. -/
  unknown : Option (Instance → Option UnknownFields) := none

/-- A declared value of a native enum. -/
structure Variant where
  name : String
  number : Int32
  schemaName : Option String := none
  docs : Option String := none
  deriving DecidableEq, Repr

/-- The name of an enum value in the schema: the declared one, or the native name in upper snake
case. -/
def Variant.valueName (v : Variant) : String := v.schemaName.getD (Text.upperSnake v.name)

/-! ## Descriptions of types

The name of a type in the schema is the declared one, or else the native name without its path and
its type arguments. -/

/-- What kind of type is described. -/
inductive TypeKind where
  | message (info : MessageInfo)
  | enum (variants : List Variant)

/-- The description of a native type. -/
structure TypeInfo where
  type : TypeId
  /-- The full native name in messages. -/
  path : String
  schemaName : Option String := none
  docs : Option String := none
  /-- The adapter that describes the type in its stead. -/
  adapter : Option String := none
  kind : TypeKind

/-- What stands before the first double colon. -/
def beforeColons : List Char → List Char
  | [] => []
  | ':' :: ':' :: _ => []
  | c :: rest => c :: beforeColons rest

/-- The last name of a path, without type arguments: `Foo` of `a::b::Foo<c::Bar>`. -/
def simpleName (path : String) : String :=
  let base := path.toList.takeWhile (· != '<')
  String.ofList (beforeColons base.reverse).reverse

namespace TypeInfo

/-- The native name without its path. -/
def name (i : TypeInfo) : String := simpleName i.path

/-- The name of the type in the schema. -/
def typeName (i : TypeInfo) : String := i.schemaName.getD i.name

def message? (i : TypeInfo) : Option MessageInfo :=
  match i.kind with
  | .message info => some info
  | .enum _ => none

def variants? (i : TypeInfo) : Option (List Variant) :=
  match i.kind with
  | .message _ => none
  | .enum variants => some variants

end TypeInfo

end ProtoSchema
