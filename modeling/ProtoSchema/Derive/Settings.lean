import ProtoSchema.Derive.Declaration
import ProtoSchema.Types.Info

/-!
# Settings of types, fields and variants

What the attributes of a declaration ask for. A setting is read whole before it is found to be a
duplicate, and settings are read in the order in which they stand; the first that cannot be read
is the one that is reported.
-/

set_option autoImplicit false

namespace ProtoSchema.Derive

open Scan

/-! ## Values of settings

A value stands behind an equals sign, and what may stand there depends on the setting. The number of
a variant and a default are read as expressions first, so an expression of another form is refused
as a value and not as code. -/

/-- The integer that an expression of signs and a whole number denotes, if it is one. The number
must fit into 64 bits before the signs are applied. -/
def Expression.signed? : Expression → Option (Except DeriveError Int)
  | literal (.integer magnitude) =>
    some (if magnitude ≤ Int64.maxValue.toInt then .ok magnitude
      else .error (.grammar .tooLarge))
  | negation e => e.signed?.map fun value ↦ value.map (- ·)
  | _ => none

/-- The number of an enum value. -/
def Expression.enumNumber (e : Expression) : Except DeriveError Int32 :=
  match e.signed? with
  | none => .error .notInteger
  | some (.error reason) => .error reason
  | some (.ok value) =>
    if Int32.minValue.toInt ≤ value ∧ value ≤ Int32.maxValue.toInt then .ok (.ofInt value)
    else .error .enumNumberRange

/-- A default: an integer with any number of signs, a float with at most one, a truth value or a
text. -/
def Expression.default (e : Expression) : Except DeriveError DefaultLiteral :=
  match e.signed? with
  | some value => value.map fun n ↦ .int (.ofInt n)
  | none =>
    match e with
    | literal (.bool b) => .ok (.bool b)
    | literal (.text s) => .ok (.text s)
    | literal (.float d) => .ok (.float (nearest d))
    | negation (.literal (.float d)) => .ok (.float (nearest d).neg)
    | _ => .error .notDefault

def anyExpression : Scan Expression := do (readersFor (← get).ahead).expression true

/-- What stands behind the equals sign of a setting. -/
def settingValue {α : Type} (read : Scan α) : Scan α := do
  demand "="
  read

/-- Whether a flag is raised: by its name alone, or by a truth value. -/
def flag : Scan Bool := do
  if ← sees "=" then settingValue boolLiteral else return true

def fieldNumber : Scan Nat := do
  let (minus, magnitude) ← integerLiteral
  if minus then refuse .negative
  else if magnitude < UInt32.size then return magnitude
  else refuse .tooLarge

def scalarName : Scan Scalar := do
  let (_, name) ← textLiteral
  match Scalar.ofKeyword? name with
  | some s => return s
  | none => throw (.notScalar name)

/-! ## Types -/

structure TypeSettings where
  /-- The name in the schema, as it is spelled. -/
  name : Option String := none
  docs : Option String := none

def TypeSettings.note (noted : TypeSettings) (setting : Option String) : Scan TypeSettings := do
  match setting with
  | some "name" => return { noted with name := ← once noted.name (← settingValue textLiteral).1 }
  | some "doc" => return { noted with docs := ← once noted.docs (← settingValue textLiteral).2 }
  | _ => throw .unknownTypeSetting

/-- Reads the settings of a type; its documentation is that of its comments unless it is set. -/
def TypeSettings.read (attributes : List Attribute) : Except DeriveError TypeSettings := do
  let noted ← readSettings TypeSettings.note {} attributes
  return { noted with docs := noted.docs <|> documentation? attributes }

/-! ## Fields -/

/-- What a field is for, if it is no ordinary field. -/
inductive FieldRole where
  /-- Its fields become fields of the declaring type. -/
  | flatten
  | unknownFields
  | skip
  deriving DecidableEq, Repr

structure FieldSettings where
  role : Option FieldRole := none
  number : Option Nat := none
  /-- The name in the schema, as it is spelled. -/
  name : Option String := none
  required : Option Bool := none
  default : Option DefaultLiteral := none
  scalar : Option Scalar := none
  packed : Option Bool := none
  /-- The name of the group, as it is spelled. -/
  oneof : Option String := none
  foreign : Option Unit := none
  docs : Option String := none

namespace FieldSettings

def note (noted : FieldSettings) (setting : Option String) : Scan FieldSettings := do
  match setting with
  | some "number" =>
    return { noted with number := ← once noted.number (← settingValue fieldNumber) }
  | some "name" => return { noted with name := ← once noted.name (← settingValue textLiteral).1 }
  | some "required" => return { noted with required := ← once noted.required (← flag) }
  | some "default" =>
    let value ← (← settingValue anyExpression).default
    return { noted with default := ← once noted.default value }
  | some "ty" => return { noted with scalar := ← once noted.scalar (← settingValue scalarName) }
  | some "packed" => return { noted with packed := ← once noted.packed (← flag) }
  | some "oneof" => return { noted with oneof := ← once noted.oneof (← settingValue textLiteral).1 }
  | some "foreign" => return { noted with foreign := ← once noted.foreign () }
  | some "doc" => return { noted with docs := ← once noted.docs (← settingValue textLiteral).2 }
  | some "flatten" => return { noted with role := ← once noted.role .flatten }
  | some "unknown_fields" => return { noted with role := ← once noted.role .unknownFields }
  | some "skip" => return { noted with role := ← once noted.role .skip }
  | _ => throw .unknownFieldSetting

/-- Whether anything was set that only an ordinary field can have. -/
def hasOptions (s : FieldSettings) : Bool :=
  s.number.isSome || s.name.isSome || s.required.isSome || s.default.isSome || s.scalar.isSome
    || s.packed.isSome || s.oneof.isSome || s.foreign.isSome

/-- Reads the settings of a field; its documentation is that of its comments unless it is set. -/
def read (attributes : List Attribute) : Except DeriveError FieldSettings := do
  let noted ← readSettings note {} attributes
  if noted.role.isSome && noted.hasOptions then throw .roleWithOptions
  if noted.foreign.isSome && noted.scalar.isSome then throw .foreignScalar
  return { noted with docs := noted.docs <|> documentation? attributes }

end FieldSettings

/-! ## Variants -/

structure VariantSettings where
  number : Option Int32 := none
  /-- The name in the schema, as it is spelled. -/
  name : Option String := none
  docs : Option String := none

def VariantSettings.note (noted : VariantSettings) (setting : Option String) :
    Scan VariantSettings := do
  match setting with
  | some "number" =>
    let number ← (← settingValue anyExpression).enumNumber
    return { noted with number := ← once noted.number number }
  | some "name" => return { noted with name := ← once noted.name (← settingValue textLiteral).1 }
  | some "doc" => return { noted with docs := ← once noted.docs (← settingValue textLiteral).2 }
  | _ => throw .unknownVariantSetting

/-- Reads the settings of a variant; its documentation is that of its comments unless it is set. -/
def VariantSettings.read (attributes : List Attribute) : Except DeriveError VariantSettings := do
  let noted ← readSettings VariantSettings.note {} attributes
  return { noted with docs := noted.docs <|> documentation? attributes }

end ProtoSchema.Derive
