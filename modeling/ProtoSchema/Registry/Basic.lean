import ProtoSchema.Codec.Marshaller
import ProtoSchema.Registry.TypeMap

/-!
# Registries

A registry binds native types to descriptors and marshallers, qualified names to native types, and
file names to schema files. It is a value: changing it gives another registry, and a change that
fails gives none. Entries stand in the order of their registration.
-/

set_option autoImplicit false

namespace ProtoSchema

/-- Tells objects apart that are otherwise equal: on which occasion an object was made, and as
which one of those made then. -/
structure Stamp where
  occasion : Nat
  index : Nat
  deriving DecidableEq, Repr

/-- A descriptor with a marshaller, ready to be bound to the marshaller's native type. -/
structure Registration where
  descriptor : Descriptor
  descriptorStamp : Stamp
  marshaller : Marshaller
  marshallerStamp : Stamp

namespace Registration

def type (r : Registration) : TypeId := r.marshaller.type

/-- The qualified name to bind. -/
def name (r : Registration) : String := r.descriptor.qualifiedName

end Registration

structure Entry extends Registration where
  /-- The schema file that defines the type, if one does. -/
  file : Option String

/-- Bound types, names and files. -/
structure Registry where
  entries : TypeMap Entry := .empty
  names : List (String × TypeId) := []
  files : List SchemaFile := []

namespace Registry

/-- Nothing is bound. -/
def empty : Registry := {}

def size (r : Registry) : Nat := r.entries.size

/-! ## Looking up

Bindings are found by type or by name. A name leads to a type first, and the type to its entry. -/

/-- The entry of a native type. -/
def get? (r : Registry) (type : TypeId) : Option Entry := r.entries.get? type

def contains (r : Registry) (type : TypeId) : Bool := (r.get? type).isSome

/-- The qualified name and the marshaller of a native type. -/
def bound? (r : Registry) (type : TypeId) : Option (String × Marshaller) :=
  (r.get? type).map fun e ↦ (e.name, e.marshaller)

/-- The entry of a qualified name. -/
def named? (r : Registry) (name : String) : Option Entry := (r.names.lookup name).bind r.get?

/-- The descriptor of a qualified name. -/
def described? (r : Registry) (name : String) : Option Descriptor :=
  (r.named? name).map fun e ↦ e.descriptor

def file? (r : Registry) (name : String) : Option SchemaFile := r.files.find? (·.name == name)

def messageMarshaller? (r : Registry) (type : TypeId) : Option MessageMarshaller :=
  (r.get? type).bind (·.marshaller.message?)

def enumMarshaller? (r : Registry) (type : TypeId) : Option EnumMarshaller :=
  (r.get? type).bind (·.marshaller.enum?)

end Registry

end ProtoSchema
