import ProtoSchema.Building.Message
import ProtoSchema.Log

/-!
# Checked types

A described type becomes a descriptor, provided that the schema under construction names it. The
values of an enum need distinct names and distinct numbers, and there must be one at least.
-/

set_option autoImplicit false

namespace ProtoSchema

open Text

/-- Checks the values of an enum one after the other. -/
def checkVariants (typePath : String) :
    (earlier : List EnumValue) → List Variant → Except SchemaError (List EnumValue)
  | earlier, [] => .ok earlier.reverse
  | earlier, v :: rest =>
    let name := v.valueName
    if !isIdentifier name then .error (.invalidName typePath name)
    else if earlier.any (·.name == name) then
      .error (.duplicateEnumValue typePath "name" name)
    else if earlier.any (·.number == v.number) then
      .error (.duplicateEnumValue typePath "number" (toString v.number.toInt))
    else checkVariants typePath (⟨name, v.number, v.docs⟩ :: earlier) rest

def buildEnum (info : TypeInfo) (variants : List Variant) (qualifiedName : String) :
    Except SchemaError EnumType := do
  if variants.isEmpty then throw (.emptyEnum info.path)
  let values ← checkVariants info.path [] variants
  return { name := info.typeName, qualifiedName, values, docs := info.docs }

inductive Built where
  | message (built : BuiltMessage)
  | enum (type : EnumType)

def Built.descriptor : Built → Descriptor
  | message built => .message built.descriptor
  | enum type => .enum type

/-- Builds the descriptor of a referenced type. -/
def build (env : Environment) (resolve : Resolver) (ref : TypeRef) : Logged SchemaError Built := do
  let some info := ref.info? env | throw (.missingTypeInfo (ref.path env))
  let some resolved := resolve ref.type | throw (.missingTypeInfo (ref.path env))
  if !isIdentifier info.typeName then throw (.invalidName info.path info.typeName)
  match info.kind with
  | .message message =>
    let built ← Logged.ofExcept (buildMessage env resolve info message resolved.qualifiedName)
    let name := built.descriptor.qualifiedName
    let count := built.descriptor.fields.length
    Logged.note .debug s!"built message `{name}` for `{info.path}` with {count} fields"
    return .message built
  | .enum variants =>
    Built.enum <$> Logged.ofExcept (buildEnum info variants resolved.qualifiedName)

end ProtoSchema
