import ProtoSchema.Building.Default
import ProtoSchema.Building.Error
import ProtoSchema.Wire.Tag

/-!
# Checked fields

One declared member becomes one field of a descriptor. The checks run in a fixed order, and the
first that fails gives the error: number, name, shape, element type, packing, default, oneof.
-/

set_option autoImplicit false

namespace ProtoSchema

open Wire Text

/-- A referenced type as the schema knows it. -/
structure Resolved where
  qualifiedName : String
  sort : TypeSort
  deriving DecidableEq, Repr

/-- Names the types that a schema refers to. -/
abbrev Resolver := TypeId → Option Resolved

/-- How a field is tied to the native type: where its value is found, what its elements are, and
whether unknown enum numbers are kept. -/
structure Binding where
  /-- Member positions from the message through its flattened supertypes. -/
  path : List Nat
  /-- The native type of an enum or message element. -/
  target : Option TypeId
  openEnum : Bool
  deriving DecidableEq, Repr

/-- A declared shape split into how many values there are and what they are. -/
structure Shape where
  cardinality : Cardinality
  presence : Bool
  element : FieldType
  mapKey : Option Scalar
  deriving DecidableEq, Repr

/-! ## Single checks

Each check looks at one part of what a member declares. Where a check fails, the error names the
type that is built, and the member. -/

/-- Splits the declared shape of a member. A bare message cannot be left out, so it is required. -/
def Member.shape (typePath : String) (m : Member) : Except SchemaError Shape :=
  let invalid (reason : String) : Except SchemaError Shape :=
    .error (.invalidCardinality typePath m.name reason)
  match m.type with
  | .optional element =>
    -- An optional of an optional, of a list or of a map has no place in a schema.
    if !element.isSingular then invalid "an optional must wrap a singular value"
    else .ok ⟨if m.required then .required else .optional, true, element, none⟩
  | .repeated element =>
    if !element.isSingular then invalid "repeated values must be singular"
    else if m.required then invalid "a repeated field cannot be required"
    else .ok ⟨.repeated, false, element, none⟩
  | .map key value =>
    match key with
    | .scalar k =>
      if !k.isMapKey then .error (.invalidMapKey typePath m.name)
      else if !value.isSingular then invalid "map values must be singular"
      else if m.required then invalid "a map field cannot be required"
      else .ok ⟨.map, false, value, some k⟩
    | _ => .error (.invalidMapKey typePath m.name)
  | .message type => .ok ⟨.required, true, .message type, none⟩
  | element => .ok ⟨if m.required then .required else .optional, false, element, none⟩

/-- The qualified name of a referenced type, which must be of the expected sort. -/
def Resolver.name (resolve : Resolver) (env : Environment) (typePath : String) (m : Member)
    (type : TypeRef) (expected : TypeSort) : Except SchemaError String :=
  match resolve type.type with
  | none => .error (.missingTypeInfo (type.path env))
  | some resolved =>
    if resolved.sort = expected then .ok resolved.qualifiedName
    else
      .error (.kindMismatch typePath m.name (type.path env)
        (match expected with
          | .message => "a message"
          | .enum => "an enum"))

/-- The element type of a field, with the native type that it refers to. -/
def Member.elementType (env : Environment) (resolve : Resolver) (typePath : String) (m : Member)
    (path : List Nat) (element : FieldType) : Except SchemaError (ValueType × Binding) :=
  let incompatible (s : Scalar) : SchemaError := .incompatibleScalar typePath m.name s.keyword
  match element with
  | .scalar natural =>
    match m.scalar with
    | none => .ok (.scalar natural, ⟨path, none, false⟩)
    | some s =>
      if s.kind = natural.kind then .ok (.scalar s, ⟨path, none, false⟩)
      else .error (incompatible s)
  | .enum type isOpen => do
    let name ← resolve.name env typePath m type .enum
    match m.scalar with
    | some s => .error (incompatible s)
    | none => .ok (.enum name, ⟨path, some type.type, isOpen⟩)
  | .message type => do
    let name ← resolve.name env typePath m type .message
    match m.scalar with
    | some s => .error (incompatible s)
    | none => .ok (.message name, ⟨path, some type.type, false⟩)
  | _ => .error (.invalidCardinality typePath m.name "values must be singular")

/-- Whether a field is packed: numeric lists are, unless declared otherwise. -/
def Member.packing (typePath : String) (m : Member) (cardinality : Cardinality)
    (type : ValueType) : Except SchemaError Bool :=
  let packable := cardinality == .repeated && type.isPackable
  match m.packed with
  | none => .ok packable
  | some true =>
    if packable then .ok true
    else
      .error (.invalidCardinality typePath m.name "only repeated numeric fields can be packed")
  | some false => .ok false

/-- The default of a field, which must be a single scalar or enum value. -/
def Member.checkedDefault (env : Environment) (typePath : String) (m : Member) (shape : Shape)
    (type : ValueType) : Except SchemaError (Option DefaultValue) :=
  match m.default with
  | none => .ok none
  | some literal =>
    let checked : Except String DefaultValue :=
      match shape.cardinality, shape.element, type with
      | .required, .enum ref _, _ | .optional, .enum ref _, _ => literal.forEnum env ref
      | .required, .scalar _, .scalar s | .optional, .scalar _, .scalar s =>
        literal.forScalar s.kind
      -- Messages, lists and maps have no literals.
      | _, _, _ => .error "only singular scalar and enum fields take defaults"
    (checked.map some).mapError (.invalidDefault typePath m.name)

/-- The oneof of a field, whose members must be able to be unset. -/
def Member.checkedOneof (typePath : String) (m : Member) (shape : Shape) :
    Except SchemaError (Option String) :=
  match m.oneof with
  | none => .ok none
  | some group =>
    if !shape.presence || shape.cardinality != .optional then
      .error (.invalidOneofMember typePath group m.name)
    else if !isIdentifier group then .error (.invalidName typePath group)
    else .ok (some group)

/-- Whether a number may stand for a field: in range and not reserved. -/
def isFieldNumber (n : Nat) : Bool :=
  n != 0 && n ≤ maxFieldNumber && !(19000 ≤ n && n ≤ 19999)

def Member.toField (env : Environment) (resolve : Resolver) (typePath : String) (m : Member)
    (path : List Nat) : Except SchemaError (Field × Binding) := do
  let number ←
    match m.number with
    | some n =>
      if isFieldNumber n then Except.ok n
      else Except.error (.invalidFieldNumber typePath m.name n)
    | none => Except.error (.missingFieldNumber typePath m.name)
  if !isIdentifier m.fieldName then throw (.invalidName typePath m.fieldName)
  let shape ← m.shape typePath
  let (type, binding) ← m.elementType env resolve typePath path shape.element
  let packed ← m.packing typePath shape.cardinality type
  let default ← m.checkedDefault env typePath shape type
  let oneof ← m.checkedOneof typePath shape
  let field : Field :=
    { number, name := m.fieldName
      wireType := if shape.cardinality = .map then .lengthDelimited else type.wireType
      cardinality := shape.cardinality, type, mapKey := shape.mapKey, default
      presence := shape.presence, packed, oneof, docs := m.docs }
  return (field, binding)

end ProtoSchema
