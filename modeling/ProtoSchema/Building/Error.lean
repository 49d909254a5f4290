/-!
# Errors of declarations

Why a declared type cannot become part of a schema. Every error names the type, by its native path,
and where it matters the member.
-/

set_option autoImplicit false

namespace ProtoSchema

inductive SchemaError where
  | emptyCompilation
  | missingFieldNumber (typePath member : String)
  | invalidFieldNumber (typePath member : String) (number : Nat)
  | duplicateFieldNumber (typePath : String) (number : Nat) (first second : String)
  | duplicateFieldName (typePath name : String)
  | duplicateTypeName (name first second : String)
  | conflictingOneof (typePath member oneof other : String)
  | invalidOneofMember (typePath oneof member : String)
  | unknownFactoryParam (typePath param : String)
  | invalidName (typePath name : String)
  | incompatibleScalar (typePath member scalar : String)
  | invalidDefault (typePath member reason : String)
  | invalidCardinality (typePath member reason : String)
  | invalidMapKey (typePath member : String)
  | duplicateEnumValue (typePath what value : String)
  | emptyEnum (typePath : String)
  | flattenCycle (typePath member : String)
  | invalidFlatten (typePath member : String)
  | kindMismatch (typePath member referenced expected : String)
  | missingTypeInfo (typePath : String)
  deriving DecidableEq, Repr

def SchemaError.message : SchemaError → String
  | emptyCompilation => "a compilation unit must request at least one type"
  | missingFieldNumber typePath member => s!"`{typePath}::{member}` has no field number"
  | invalidFieldNumber typePath member number =>
    s!"`{typePath}::{member}` uses invalid field number {number}"
  | duplicateFieldNumber typePath number first second =>
    s!"`{typePath}`: field number {number} is used by both `{first}` and `{second}`"
  | duplicateFieldName typePath name => s!"`{typePath}`: field name `{name}` is declared twice"
  | duplicateTypeName name first second =>
    s!"schema name `{name}` is claimed by both `{first}` and `{second}`"
  | conflictingOneof typePath member oneof other =>
    s!"`{typePath}`: field `{member}` cannot belong to oneof `{oneof}`, it is already in `{other}`"
  | invalidOneofMember typePath oneof member =>
    s!"`{typePath}`: oneof `{oneof}` member `{member}` must be an optional singular field"
  | unknownFactoryParam typePath param =>
    s!"`{typePath}`: factory parameter `{param}` has no matching member"
  | invalidName typePath name =>
    s!"`{name}` (from `{typePath}`) is not a valid schema identifier"
  | incompatibleScalar typePath member scalar =>
    s!"`{typePath}::{member}`: `{scalar}` cannot carry this field's value"
  | invalidDefault typePath member reason =>
    s!"`{typePath}::{member}`: invalid default value, {reason}"
  | invalidCardinality typePath member reason => s!"`{typePath}::{member}`: {reason}"
  | invalidMapKey typePath member =>
    s!"`{typePath}::{member}`: map keys must be integral, bool or string"
  | duplicateEnumValue typePath what value =>
    s!"`{typePath}`: enum value {what} `{value}` is declared twice"
  | emptyEnum typePath => s!"`{typePath}`: an enum needs at least one value"
  | flattenCycle typePath member => s!"`{typePath}` flattens itself through `{member}`"
  | invalidFlatten typePath member =>
    s!"`{typePath}::{member}`: only message types can be flattened"
  | kindMismatch typePath member referenced expected =>
    s!"`{typePath}::{member}` refers to `{referenced}` as {expected}, but it is not one"
  | missingTypeInfo typePath => s!"`{typePath}` has no type information and no adapter"

end ProtoSchema
