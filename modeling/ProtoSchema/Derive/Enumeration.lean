import ProtoSchema.Derive.Message

/-!
# Derived enums

From the declaration of an enum without data comes its description. A variant has the number that is
set for it, or that of its discriminant, or the one after the number of the variant before; the
first counts from zero. Counting goes around at the end of the range.
-/

set_option autoImplicit false

namespace ProtoSchema.Derive

structure DerivedVariant where
  name : String
  number : Int32
  settings : VariantSettings

/-- Reads and numbers variants; `next` is the number of a variant that asks for none. -/
def numberVariants : (next : Int32) → List DeclaredVariant →
    Except DeriveError (List DerivedVariant)
  | _, [] => .ok []
  | next, variant :: rest => do
    if variant.hasData then throw .variantData
    let settings ← VariantSettings.read variant.attributes
    let number ←
      match settings.number, variant.discriminant with
      | some number, _ => Except.ok number
      | none, some value => value.enumNumber
      | none, none => Except.ok next
    return ⟨variant.name, number, settings⟩ :: (← numberVariants (number + 1) rest)

namespace DerivedVariant

def numberCode (v : DerivedVariant) : Code := Code.number v.number.toInt "i32"

def nameCode (v : DerivedVariant) : Code := Code.of "Self::" ++ [v.name]

/-! ## The code

Each variant adds one piece to the description and one to either conversion. -/

/-- The call that adds the variant. -/
def code (l : Library) (v : DerivedVariant) : Code :=
  Code.method "with_variant"
    (l.info "VariantInfo::new" ++ Code.round (Code.text v.name ++ [","] ++ v.numberCode)
      ++ Code.method? "with_proto_name" (v.settings.name.map ([·]))
      ++ Code.method? "with_docs" (v.settings.docs.map Code.text))

/-- The case that finds the variant of a number. -/
def fromNumber (l : Library) (v : DerivedVariant) : Code :=
  v.numberCode ++ Code.of "=>" ++ l.support "Option::Some" ++ Code.round v.nameCode ++ [","]

/-- The case that finds the number of the variant. -/
def toNumber (v : DerivedVariant) : Code := v.nameCode ++ Code.of "=>" ++ v.numberCode ++ [","]

end DerivedVariant

/-- What is derived for an enum: its variants, of which there is a first. -/
structure EnumPlan where
  first : DerivedVariant
  rest : List DerivedVariant

namespace EnumPlan

def variants (plan : EnumPlan) : List DerivedVariant := plan.first :: plan.rest

def description (l : Library) (plan : EnumPlan) (settings : TypeSettings) : Code :=
  l.info "TypeInfo::enumeration::<Self>"
    ++ Code.round
      (l.info "EnumInfo::new" ++ Code.of "()" ++ plan.variants.flatMap (DerivedVariant.code l))
    ++ settings.code

/-- The functions between variants and numbers. -/
def conversions (l : Library) (name : String) (plan : EnumPlan) : Code :=
  Code.implementation (l.value "ProtoEnum") name
    (Code.of "#[allow(unreachable_patterns)]"
      ++ Code.function
        (Code.of "from_number(number: i32) ->" ++ l.support "Option" ++ Code.of "<Self>")
        (Code.of "match number" ++ Code.curly
          (plan.variants.flatMap (DerivedVariant.fromNumber l)
            ++ Code.of "_ =>" ++ l.support "Option::None" ++ [","]))
      ++ Code.function (Code.of "number(&self) -> i32")
        (Code.of "match self" ++ Code.curly (plan.variants.flatMap DerivedVariant.toNumber)))

/-- The code for an enum. -/
def code (l : Library) (name : String) (plan : EnumPlan) (settings : TypeSettings) : Code :=
  Code.enclosed
    (Code.implementation (l.info "Typed") name (l.typeInfo (plan.description l settings))
      ++ plan.conversions l name
      ++ l.protoField name
        (l.info "FieldType::Enum" ++ Code.curly
          (Code.of "ty:" ++ l.typeRef "of" ["Self"] ++ Code.of ", open: false,"))
        (l.value "ValueRef::Enum" ++ Code.round
          (Code.of "<Self as" ++ l.value "ProtoEnum" ++ Code.of ">::number(self)"))
        (l.support "enum_from_value" ++ Code.of "::<Self>(value)")
        (Code.inlined
          ++ Code.function (Code.of "missing() ->" ++ l.support "Option" ++ Code.of "<Self>")
            (l.support "Option::Some" ++ Code.round plan.first.nameCode)))

end EnumPlan

/-- The variants of an enum; there must be some. -/
def Declaration.enumVariants (d : Declaration) : Except DeriveError (List DeclaredVariant) :=
  if d.isGeneric then .error .generic
  else
    match d.shape with
    | .enum [] => .error .noVariants
    | .enum variants => .ok variants
    | .struct _ | .union => .error .notEnum

/-- Derives the code for an enum; `library` is the path to the library, if there is one. -/
def Declaration.deriveEnum (library : Except DeriveError Code) (d : Declaration) :
    Except DeriveError Code := do
  let variants ← d.enumVariants
  let path ← library
  let settings ← TypeSettings.read d.attributes
  match ← numberVariants 0 variants with
  | [] => throw .noVariants
  | first :: rest => return EnumPlan.code ⟨path⟩ d.name ⟨first, rest⟩ settings

end ProtoSchema.Derive
