import ProtoSchema.Value.Error
import ProtoSchema.Wire.Basic

/-!
# Errors of reading and writing

Why bytes do not become an instance, and why an instance does not become bytes.
-/

set_option autoImplicit false

namespace ProtoSchema

open Wire

def requiredMessage (typeName field : String) : String :=
  s!"required field `{field}` of `{typeName}` is not set"

def unknownTypeMessage (name : String) : String := s!"no marshaller is registered for `{name}`"

/-- Bytes cannot be read. -/
inductive DecodeError where
  | wire (cause : WireError)
  | required (typeName field : String)
  | factory (cause : FactoryError)
  | unknownType (name : String)
  | typeMismatch (expected : String)
  deriving DecidableEq, Repr

def DecodeError.message : DecodeError → String
  | wire cause => cause.message
  | required typeName field => requiredMessage typeName field
  | factory cause => cause.message
  | unknownType name => unknownTypeMessage name
  | typeMismatch expected => s!"marshaller for `{expected}` produced a different type"

/-- An instance cannot be written. -/
inductive EncodeError where
  | required (typeName field : String)
  | unknownType (name : String)
  | valueMismatch (typeName field : String)
  | instanceMismatch (expected : String)
  deriving DecidableEq, Repr

def EncodeError.message : EncodeError → String
  | required typeName field => requiredMessage typeName field
  | unknownType name => unknownTypeMessage name
  | valueMismatch typeName field =>
    s!"`{typeName}::{field}`: value does not match the declared type"
  | instanceMismatch expected => s!"expected an instance of `{expected}`"

end ProtoSchema
