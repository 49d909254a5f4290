import ProtoSchema.Value.Basic

/-!
# Errors of values and factories

What can be wrong with a value that a native type is asked to hold, and why a factory may refuse to
build an instance.
-/

set_option autoImplicit false

namespace ProtoSchema

inductive ValueError where
  | typeMismatch (expected found : String)
  | unknownEnumValue (typePath : String) (number : Int32)
  deriving DecidableEq, Repr

def ValueError.message : ValueError → String
  | typeMismatch expected found => s!"expected a {expected} value, found {found}"
  | unknownEnumValue typePath number =>
    toString number.toInt ++ s!" is not a value of `{typePath}`"

inductive FactoryError where
  | missingValue (typePath member : String)
  | noSuchMember (typePath member : String)
  | value (typePath member : String) (cause : ValueError)
  | invalid (typePath reason : String)
  deriving DecidableEq, Repr

def FactoryError.message : FactoryError → String
  | missingValue typePath member => s!"`{typePath}` has no value for `{member}`"
  | noSuchMember typePath member => s!"`{typePath}` has no member `{member}`"
  | value typePath member cause => s!"`{typePath}::{member}`: " ++ cause.message
  | invalid typePath reason => s!"`{typePath}`: {reason}"

/-- The error of a value found where another kind was expected. -/
def Value.mismatch (v : Value) (expected : String) : ValueError :=
  .typeMismatch expected v.kindName

/-- The instance of the given type inside a message value. -/
def Value.toInstance (v : Value) (type : TypeId) : Except ValueError Instance :=
  match v with
  | .message i =>
    if i.type = type then .ok i else .error (.typeMismatch type.name "message")
  | other => .error (other.mismatch "message")

end ProtoSchema
