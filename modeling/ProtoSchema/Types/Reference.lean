import ProtoSchema.Schema.Scalar
import ProtoSchema.Value.Native

/-!
# Type references

A reference names a native type by its identity and says where its description is to be found. Two
references to one type count as the same whatever their sources. References are names, not the
descriptions themselves, so descriptions may refer to one another in cycles.
-/

set_option autoImplicit false

namespace ProtoSchema

/-- Where the description of a referenced type is found. -/
inductive Source where
  /-- The type describes itself. -/
  | own
  /-- One particular description, by its position in the environment. -/
  | described (index : Nat)
  /-- A built-in adapter describes the type. -/
  | builtin
  /-- The type has no description of its own. -/
  | foreign
  deriving DecidableEq, Repr

/-- A reference to a native type. -/
structure TypeRef where
  type : TypeId
  source : Source
  deriving DecidableEq, Repr

namespace TypeRef

/-- A reference to a type that describes itself. -/
def of (type : TypeId) : TypeRef := ⟨type, .own⟩

/-- A reference to a type that cannot describe itself. -/
def foreign (type : TypeId) : TypeRef := ⟨type, .foreign⟩

def isForeign (r : TypeRef) : Bool := r.source == .foreign

end TypeRef

/-- The declared shape of a member's value; not every shape can stand in a schema. -/
inductive FieldType where
  | scalar (type : Scalar)
  /-- An open enum keeps numbers that it does not declare. -/
  | enum (type : TypeRef) (isOpen : Bool)
  | message (type : TypeRef)
  | optional (element : FieldType)
  | repeated (element : FieldType)
  | map (key value : FieldType)
  deriving DecidableEq, Repr, Inhabited

namespace FieldType

/-- The enums and messages that a shape refers to, from left to right. -/
def references : FieldType → List TypeRef
  | scalar _ => []
  | enum type _ => [type]
  | message type => [type]
  | optional element => element.references
  | repeated element => element.references
  | map key value => key.references ++ value.references

/-- Whether a shape is a single scalar, enum or message. -/
def isSingular : FieldType → Bool
  | scalar _ | enum .. | message _ => true
  | _ => false

end FieldType

/-- The shape of a map key. -/
def KeyType.scalar : KeyType → Scalar
  | bool => .bool
  | i32 => .int32
  | i64 => .int64
  | u32 => .uint32
  | u64 => .uint64
  | string => .string
  | bytes => .bytes
  | boxed k => k.scalar

/-- The shape that a native type has in a schema. -/
def NativeType.fieldType : NativeType → FieldType
  | plain k => .scalar k.scalar
  | f32 => .scalar .float
  | f64 => .scalar .double
  | closedEnum e => .enum (.of e.type) false
  | openEnum e => .enum (.of e.type) true
  | message type => .message (.of type)
  | optional t => .optional t.fieldType
  | boxed t => t.fieldType
  | list t => .repeated t.fieldType
  | sortedMap k t => .map (.scalar k.scalar) t.fieldType
  | hashedMap k t => .map (.scalar k.scalar) t.fieldType

end ProtoSchema
