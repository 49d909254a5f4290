import ProtoSchema.Building.Type
import ProtoSchema.Codec.Layout

/-!
# Marshallers

A marshaller is what moves instances of one type across the wire. For a message it joins the
descriptor, which says how fields travel, with the layout, which says where their values are kept;
each field has a plan that ties the two. For an enum it knows the declared numbers. References to
other types are by native identity and are looked up when the marshaller runs.
-/

set_option autoImplicit false

namespace ProtoSchema

open Wire

/-- The elements of a field, by native type. -/
inductive Element where
  | scalar (type : Scalar)
  | enum (target : TypeId) (isOpen : Bool)
  | message (target : TypeId)
  deriving DecidableEq, Repr

def Element.wireType : Element → WireType
  | scalar s => s.wireType
  | enum .. => .varint
  | message _ => .lengthDelimited

/-- How one field is read and written. -/
structure Plan where
  field : Field
  element : Element
  /-- Where the value is kept. -/
  path : List Nat
  deriving Repr

/-- The name to report when the type of the elements is not registered. -/
def Plan.targetName (p : Plan) : String := p.field.type.target?.getD p.field.name

/-- The marshaller of a message type. -/
structure MessageMarshaller where
  type : TypeId
  descriptor : MessageType
  plans : List Plan
  layout : Layout

namespace MessageMarshaller

/-- The native path in messages. -/
def path (m : MessageMarshaller) : String := m.layout.typePath

/-! ## Compiling

Each field of the descriptor has a plan in the same position. The plan leads to a field of the
layout, or the marshaller is not made. -/

/-- The position of the plan for a field number. -/
def planIndex? (m : MessageMarshaller) (number : Nat) : Option Nat :=
  m.plans.findIdx? (·.field.number == number)

end MessageMarshaller

/-- The plan of a field, which must lead to a field of the layout. -/
def planOf (info : TypeInfo) (layout : Layout) (field : Field) (binding : Binding) :
    Except SchemaError Plan := do
  let element ←
    match field.type, binding.target with
    | .scalar s, _ => Except.ok (Element.scalar s)
    | .enum _, some target => Except.ok (Element.enum target binding.openEnum)
    | .message _, some target => Except.ok (Element.message target)
    | _, none => Except.error (.missingTypeInfo (info.path ++ "::" ++ field.name))
  if layout.hasField binding.path then return ⟨field, element, binding.path⟩
  else throw (.invalidFlatten info.path field.name)

/-- The marshaller of a described message whose fields were built. -/
def MessageMarshaller.compile (env : Environment) (info : TypeInfo) (built : BuiltMessage) :
    Except SchemaError MessageMarshaller := do
  let some message := info.message? | throw (.missingTypeInfo info.path)
  let layout ← Layout.ofInfo env info message
  let plans ←
    (built.descriptor.fields.zip built.bindings).mapM fun (field, binding) ↦
      planOf info layout field binding
  return { type := info.type, descriptor := built.descriptor, plans, layout }

structure EnumMarshaller where
  type : TypeId
  path : String
  descriptor : EnumType
  deriving DecidableEq, Repr

def EnumMarshaller.isKnown (e : EnumMarshaller) (number : Int32) : Bool :=
  e.descriptor.declares number

/-- A marshaller of either kind. -/
inductive Marshaller where
  | message (m : MessageMarshaller)
  | enum (e : EnumMarshaller)

namespace Marshaller

def type : Marshaller → TypeId
  | message m => m.type
  | enum e => e.type

/-- The native path in messages. -/
def path : Marshaller → String
  | message m => m.path
  | enum e => e.path

def message? : Marshaller → Option MessageMarshaller
  | message m => some m
  | enum _ => none

def enum? : Marshaller → Option EnumMarshaller
  | message _ => none
  | enum e => some e

end Marshaller

/-! ## Dumps

How marshallers are shown to users who look into a registry. Of message marshallers only those
without fields are shown in whole. -/

/-- The text of an enum marshaller. -/
def EnumMarshaller.dump (e : EnumMarshaller) : String :=
  "EnumMarshaller \x7b type_path: " ++ Text.quote e.path
    ++ ", name: " ++ Text.quote e.descriptor.qualifiedName ++ " \x7d"

def MessageMarshaller.dumpEmpty (m : MessageMarshaller) : String :=
  "GeneratedMarshaller \x7b type_path: " ++ Text.quote m.path
    ++ ", message: " ++ Text.quote m.descriptor.qualifiedName ++ ", fields: [], .. \x7d"

def Marshaller.dump : Marshaller → String
  | message m => "Marshaller::Message(" ++ m.path ++ ")"
  | enum e => "Marshaller::Enum(" ++ e.path ++ ")"

end ProtoSchema
