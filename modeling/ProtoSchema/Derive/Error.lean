import ProtoSchema.Derive.Grammar.Error

/-!
# Errors of derivation

Why no code is derived for a declaration: it is of the wrong form, an attribute of it cannot be
read, or the code has no way to reach the library. The last two kinds of error end the derivation
on the spot; a caller shows all others at the declaration.
-/

set_option autoImplicit false

namespace ProtoSchema

inductive DeriveError where
  /-- The text holds no declaration. -/
  | unreadable
  | generic
  | notStruct
  | unnamedFields
  | notEnum
  | noVariants
  | variantData
  | noArguments
  | notArguments
  | literalSetting
  | strangeSetting
  | duplicateSetting
  | unknownTypeSetting
  | unknownFieldSetting
  | unknownVariantSetting
  | roleWithOptions
  | foreignScalar
  | secondUnknown
  | notScalar (name : String)
  | notDefault
  | notInteger
  | enumNumberRange
  /-- A part of an attribute cannot be read. -/
  | grammar (reason : Derive.GrammarError)
  | infiniteDefault
  | invalidPath (path : String)
  deriving DecidableEq, Repr

namespace DeriveError

instance : Coe Derive.GrammarError DeriveError := ⟨grammar⟩

def message : DeriveError → String
  | unreadable => "cannot parse string into token stream"
  | generic => "proto types cannot be generic"
  | notStruct => "`ProtoMessage` can only be derived for structs"
  | unnamedFields => "`ProtoMessage` requires named fields"
  | notEnum => "`ProtoEnum` can only be derived for enums"
  | noVariants => "`ProtoEnum` requires at least one variant"
  | variantData => "`ProtoEnum` variants cannot carry data"
  | noArguments => "expected attribute arguments in parentheses: #[proto(...)]"
  | notArguments => "expected parentheses: #[proto(...)]"
  | literalSetting => "unexpected literal in nested attribute, expected ident"
  | strangeSetting => "unexpected token in nested attribute, expected ident"
  | duplicateSetting => "duplicate attribute"
  | unknownTypeSetting => "unsupported type attribute, expected `name` or `doc`"
  | unknownFieldSetting => "unsupported field attribute"
  | unknownVariantSetting => "unsupported variant attribute, expected `number`, `name` or `doc`"
  | roleWithOptions => "`flatten`, `unknown_fields` and `skip` take no other field options"
  | foreignScalar => "a `foreign` field cannot override its scalar type"
  | secondUnknown => "only one field can hold the unknown fields"
  | notScalar name => s!"`{name}` is not a protobuf scalar type"
  | notDefault => "expected a bool, integer, float or string literal"
  | notInteger => "expected an integer literal"
  | enumNumberRange => "enum numbers must fit in an `i32`"
  | grammar reason => reason.message
  | infiniteDefault => "assertion failed: f.is_finite()"
  | invalidPath path => s!"`{path}` is not a valid path"

/-- Whether the error ends the derivation instead of being shown at the declaration. -/
def isFatal : DeriveError → Bool
  | infiniteDefault | invalidPath _ => true
  | _ => false

end DeriveError

end ProtoSchema
