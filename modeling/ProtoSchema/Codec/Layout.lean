import ProtoSchema.Building.Error
import ProtoSchema.Types.Inlining

/-!
# Layouts

A layout knows how to take an instance apart and how to put it back together: the getters of its
members and its factory, and for a flattened member the layout of the supertype. A value is
addressed by the path of member positions that leads to it.
-/

set_option autoImplicit false

namespace ProtoSchema

open Wire

mutual

/-- How instances of a message type are taken apart and built. -/
inductive Layout where
  | mk (typePath : String) (names : List String) (factory : Factory)
      (unknown : Option (Instance → Option UnknownFields)) (parts : List Part)

/-- A member of a layout. -/
inductive Part where
  | field (getter : Getter)
  | flatten (getter : Getter) (parent : Layout)

end

namespace Layout

def typePath : Layout → String
  | mk typePath _ _ _ _ => typePath

def names : Layout → List String
  | mk _ names _ _ _ => names

def factory : Layout → Factory
  | mk _ _ factory _ _ => factory

/-- Lends the unknown fields of an instance, where the type retains any. -/
def unknown : Layout → Option (Instance → Option UnknownFields)
  | mk _ _ _ unknown _ => unknown

def parts : Layout → List Part
  | mk _ _ _ _ parts => parts

/-- Whether a path leads to a field. -/
def hasField (l : Layout) : List Nat → Bool
  | [] => false
  | index :: rest =>
    match l.parts[index]? with
    | some (.field _) => rest.isEmpty
    | some (.flatten _ parent) => parent.hasField rest
    | none => false

/-- Reads the value at a path. -/
def get? (l : Layout) (i : Instance) : List Nat → Option Value
  | [] => none
  | index :: rest =>
    match l.parts[index]? with
    | some (.field getter) => getter.read i
    | some (.flatten getter parent) =>
      match getter.read i with
      | some (.message inner) => parent.get? inner rest
      | _ => none
    | none => none

/-- A value that a layout reads nests less deeply than the instance it is read from. -/
theorem depth_lt_of_get? {l : Layout} {i : Instance} {path : List Nat} {v : Value}
    (h : l.get? i path = some v) : v.depth < i.depth := by
  induction path generalizing l i with
  | nil => cases h
  | cons index rest ih =>
    rw [get?] at h
    split at h
    · next getter _ => exact getter.depth_lt i v h
    · next getter parent _ =>
      split at h
      · next inner hi =>
        have h₁ := getter.depth_lt i _ hi
        have h₂ := ih h
        rw [Value.depth] at h₁
        omega
      · cases h
    · cases h

/-! ## Taking apart and building

Both directions go by paths, so neither knows in which order fields travel. A supertype is built
before the instance that inlines it. -/

mutual

/-- Builds an instance: the supertypes first, then the instance itself, which alone receives the
unknown fields. `valueAt` gives the value of the field at a path. -/
def assemble (valueAt : List Nat → Option Value) (base : List Nat) (unknown : UnknownFields) :
    Layout → Except FactoryError Instance
  | mk typePath names factory _ parts => do
    let slots ← assembleParts valueAt base 0 parts
    factory ⟨typePath, names, slots, unknown⟩

/-- The slots of the members of which the first stands at position `index`. -/
def assembleParts (valueAt : List Nat → Option Value) (base : List Nat) (index : Nat) :
    List Part → Except FactoryError (List (Option Value))
  | [] => .ok []
  | .field _ :: rest => do
    return valueAt (base ++ [index]) :: (← assembleParts valueAt base (index + 1) rest)
  | .flatten _ parent :: rest => do
    -- Unknown fields belong to the message that is read, not to what it inlines.
    let i ← assemble valueAt (base ++ [index]) .empty parent
    return some (.message i) :: (← assembleParts valueAt base (index + 1) rest)

end

mutual

/-- The layout of one followed member of the type at `typePath`. -/
def partOf (typePath : String) : Inlined → Except SchemaError Part
  | .field _ member => .ok (.field member.getter)
  | .parent member info message members => do
    let parts ← partsOf info.path members
    return .flatten member.getter
      (mk info.path (message.members.map (·.name)) message.factory message.unknown parts)
  | .invalid member => .error (.invalidFlatten typePath member.name)
  | .cycle member => .error (.invalidFlatten typePath member.name)

def partsOf (typePath : String) : List Inlined → Except SchemaError (List Part)
  | [] => .ok []
  | m :: rest => do return (← partOf typePath m) :: (← partsOf typePath rest)

end

/-- The layout of a described message. -/
def ofInfo (env : Environment) (info : TypeInfo) (message : MessageInfo) :
    Except SchemaError Layout := do
  let parts ← partsOf info.path (info.inline env message)
  return mk info.path (message.members.map (·.name)) message.factory message.unknown parts

end Layout

end ProtoSchema
