import ProtoSchema.Floating.Basic
import ProtoSchema.Schema.Scalar

/-!
# Descriptors

The checked description of a message or an enum: what a schema file says about it, with every
reference to another type by its qualified name. Descriptors are compared by `==`, which compares
floating-point defaults as numbers.
-/

set_option autoImplicit false

namespace ProtoSchema

open Wire

/-- How many values a field holds and how absence is treated. -/
inductive Cardinality where
  /-- Set before encoding and present in every input. -/
  | required
  | optional
  | repeated
  | map
  deriving DecidableEq, Repr

def Cardinality.label : Cardinality → String
  | required => "required"
  | optional => "optional"
  | repeated => "repeated"
  | map => "map"

/-- What the elements of a field are; messages and enums go by qualified name. -/
inductive ValueType where
  | scalar (type : Scalar)
  | message (name : String)
  | enum (name : String)
  deriving DecidableEq, Repr

namespace ValueType

/-- The wire type of one element. -/
def wireType : ValueType → WireType
  | scalar s => s.wireType
  | message _ => .lengthDelimited
  | enum _ => .varint

/-- Whether lists of such elements may share one record. -/
def isPackable : ValueType → Bool
  | scalar s => s.isPackable
  | enum _ => true
  | message _ => false

/-- The qualified name that the type refers to. -/
def target? : ValueType → Option String
  | scalar _ => none
  | message name => some name
  | enum name => some name

end ValueType

/-- A declared default that fits its field. -/
inductive DefaultValue where
  | bool (b : Bool)
  | int (n : Int64)
  | uint (n : UInt64)
  | float (x : Binary64)
  | string (s : String)
  | bytes (b : Bytes)
  | enum (name : String) (number : Int32)
  deriving DecidableEq, Repr

/-- Equality of defaults, with floats compared as numbers. -/
def DefaultValue.same : DefaultValue → DefaultValue → Bool
  | float x, float y => x.numericallyEqual y
  | a, b => decide (a = b)

/-- Defaults are compared by `same`. -/
instance : BEq DefaultValue := ⟨DefaultValue.same⟩

/-! ## Messages

Fields are kept in declaration order, in which they are written. -/

structure Field where
  number : Nat
  name : String
  /-- The wire type of one element; the entries of a map are length-delimited. -/
  wireType : WireType
  cardinality : Cardinality
  /-- The type of one element, for a map that of the entries' values. -/
  type : ValueType
  mapKey : Option Scalar
  default : Option DefaultValue
  /-- Whether an unset field differs from one that holds its default. -/
  presence : Bool
  packed : Bool
  oneof : Option String
  docs : Option String
  deriving BEq, Repr

/-- Fields of which at most one is set. -/
structure Oneof where
  name : String
  /-- The numbers of the members in declaration order. -/
  numbers : List Nat
  deriving DecidableEq, Repr

structure MessageType where
  name : String
  qualifiedName : String
  fields : List Field
  oneofs : List Oneof
  docs : Option String
  deriving BEq, Repr

namespace MessageType

def field? (m : MessageType) (number : Nat) : Option Field := m.fields.find? (·.number == number)

def fieldNamed? (m : MessageType) (name : String) : Option Field := m.fields.find? (·.name == name)

end MessageType

/-! ## Enums -/

structure EnumValue where
  name : String
  number : Int32
  docs : Option String
  deriving DecidableEq, Repr

structure EnumType where
  name : String
  qualifiedName : String
  values : List EnumValue
  docs : Option String
  deriving DecidableEq, Repr

namespace EnumType

def value? (e : EnumType) (number : Int32) : Option EnumValue :=
  e.values.find? (·.number == number)

def valueNamed? (e : EnumType) (name : String) : Option EnumValue := e.values.find? (·.name == name)

def declares (e : EnumType) (number : Int32) : Bool := e.values.any (·.number == number)

end EnumType

/-! ## Types and files -/

inductive TypeSort where
  | message
  | enum
  deriving DecidableEq, Repr

inductive Descriptor where
  | message (type : MessageType)
  | enum (type : EnumType)
  deriving BEq, Repr

namespace Descriptor

def name : Descriptor → String
  | message m => m.name
  | enum e => e.name

/-- The name behind its package. -/
def qualifiedName : Descriptor → String
  | message m => m.qualifiedName
  | enum e => e.qualifiedName

/-- Which of the two kinds is described. -/
def sort : Descriptor → TypeSort
  | message _ => .message
  | enum _ => .enum

def message? : Descriptor → Option MessageType
  | message m => some m
  | enum _ => none

def enum? : Descriptor → Option EnumType
  | message _ => none
  | enum e => some e

/-- A short mention in running text. -/
def mention : Descriptor → String
  | message m => "message " ++ m.qualifiedName
  | enum e => "enum " ++ e.qualifiedName

end Descriptor

/-- A schema file: the types it defines and the files it relies on. -/
structure SchemaFile where
  name : String
  package : Option String
  /-- What produced the file. -/
  generator : Option String
  imports : List String
  /-- The defined types in the order they were reached. -/
  types : List Descriptor
  deriving BEq, Repr

namespace SchemaFile

def messages (f : SchemaFile) : List MessageType := f.types.filterMap Descriptor.message?

def enums (f : SchemaFile) : List EnumType := f.types.filterMap Descriptor.enum?

/-- The first type with the given simple or qualified name. -/
def get? (f : SchemaFile) (name : String) : Option Descriptor :=
  f.types.find? fun d ↦ d.qualifiedName == name || d.name == name

end SchemaFile

end ProtoSchema
