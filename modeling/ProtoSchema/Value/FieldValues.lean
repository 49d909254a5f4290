import ProtoSchema.Value.Native

/-!
# Decoded member values

What decoding hands to the factory of a type: one slot per declared member, empty where nothing
came and no default is declared, and the unknown fields. A factory takes values out of their slots,
each at most once, and an error anywhere ends it.
-/

set_option autoImplicit false

namespace ProtoSchema

open Wire

structure FieldValues where
  typePath : String
  names : List String
  slots : List (Option Value)
  unknown : UnknownFields

/-- A step of a factory. -/
abbrev Take := StateT FieldValues (Except FactoryError)

namespace FieldValues

/-- Empty slots for the named members. -/
def empty (typePath : String) (names : List String) : FieldValues :=
  ⟨typePath, names, names.map fun _ ↦ none, .empty⟩

def size (v : FieldValues) : Nat := v.slots.length

/-- Whether a member received a value that is still in its slot. -/
def isSet (v : FieldValues) (index : Nat) : Bool := (v.slots[index]?.join).isSome

/-- The position of a member. -/
def indexOf? (v : FieldValues) (name : String) : Option Nat := v.names.findIdx? (· == name)

def memberName (v : FieldValues) (index : Nat) : String :=
  v.names[index]?.getD ("#" ++ toString index)

/-! ## Taking values

A step takes at most one slot and leaves it empty. What it asks of the value is the member's native
type, and the error names the member. -/

/-- Takes the value out of a slot. -/
def takeValue (index : Nat) : Take (Option Value) := fun v ↦
  match v.slots[index]? with
  | some slot => .ok (slot, { v with slots := v.slots.set index none })
  | none => .error (.noSuchMember v.typePath ("#" ++ toString index))

/-- Names the member in the error of a conversion. -/
def explain {α : Type} (index : Nat) (result : Except ValueError α) : Take α := fun v ↦
  match result with
  | .ok a => .ok (a, v)
  | .error cause => .error (.value v.typePath (v.memberName index) cause)

/-- What a slot holds, or an error when it is empty. -/
def orMissing {α : Type} (index : Nat) (value : Option α) : Take α := fun v ↦
  match value with
  | some a => .ok (a, v)
  | none => .error (.missingValue v.typePath (v.memberName index))

/-- Takes a member of a native type; an empty slot gives the type's missing value. -/
def take (t : NativeType) (index : Nat) : Take t.Carrier := do
  match ← takeValue index with
  | some value => explain index (t.fromValue value)
  | none => orMissing index t.missing?

/-- Takes a member by its name. -/
def takeNamed (t : NativeType) (name : String) : Take t.Carrier := do
  match (← get).indexOf? name with
  | some index => take t index
  | none => throw (.noSuchMember (← get).typePath name)

/-- Takes a foreign instance, if the slot holds one. -/
def takeForeignOptional (type : TypeId) (index : Nat) : Take (Option Instance) := do
  match ← takeValue index with
  | some value => some <$> explain index (value.toInstance type)
  | none => return none

/-- Takes a foreign instance. -/
def takeForeign (type : TypeId) (index : Nat) : Take Instance := do
  orMissing index (← takeForeignOptional type index)

/-- Takes a list of foreign instances. -/
def takeForeignList (type : TypeId) (index : Nat) : Take (List Instance) := do
  match ← takeValue index with
  | some (.list vs) => explain index (vs.mapM (·.toInstance type))
  | some other => explain index (.error (other.mismatch "list"))
  | none => return []

def takeUnknown : Take UnknownFields := do
  let v ← get
  set { v with unknown := .empty }
  return v.unknown

end FieldValues

end ProtoSchema
