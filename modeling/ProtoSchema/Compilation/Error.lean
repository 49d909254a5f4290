import ProtoSchema.Building.Error
import ProtoSchema.Registry.Register

/-!
# Errors of compilations

Why a compilation unit does not become a schema file: a declaration is refused, a reference leads
nowhere, or the registry refuses the outcome.
-/

set_option autoImplicit false

namespace ProtoSchema

inductive ImportError where
  | unresolved (referrer referenced : String)
  | noAdapter (typePath : String)
  deriving DecidableEq, Repr

def ImportError.message : ImportError → String
  | unresolved referrer referenced =>
    s!"`{referenced}` (referenced by `{referrer}`) is not requested, not registered and closure "
      ++ "expansion is disabled"
  | noAdapter typePath =>
    s!"`{typePath}` is a foreign type without adapter or registered marshaller"

inductive CompileError where
  | schema (cause : SchemaError)
  | reference (cause : ImportError)
  | registration (cause : RegistrationError)
  deriving DecidableEq, Repr

def CompileError.message : CompileError → String
  | schema cause => cause.message
  | reference cause => cause.message
  | registration cause => cause.message

end ProtoSchema
