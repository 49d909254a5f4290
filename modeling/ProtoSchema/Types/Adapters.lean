import ProtoSchema.Types.Info
import ProtoSchema.Value.TwosComplement

/-!
# Built-in adapters

Descriptions of foreign types that cannot describe themselves. An integer of any size is one field
with its bytes in two's complement; an array is its size with its elements, and is refused when the
two disagree.
-/

set_option autoImplicit false

namespace ProtoSchema

open FieldValues

namespace Getter

/-- A getter whose values hold no instance. -/
def shallow (read : Instance → Option Value) (flat : ∀ i v, read i = some v → v.depth = 0) :
    Getter where
  read := read
  depth_lt i v h := by
    rw [flat i v h]
    exact i.depth_pos

end Getter

/-! ## Integers of any size

The bytes are the only field. Any bytes may be read, and none are zero. -/

def bigIntegerBytes : Getter :=
  .shallow (fun i ↦
      match i with
      | .bigInteger n => some (.bytes (TwosComplement.encode n))
      | _ => none)
    (by
      intro i v h
      split at h <;> cases h
      rfl)

/-- Reads an integer back from its bytes. -/
def bigIntegerFactory : Factory := fun values ↦
  let build : Take Instance := do
    let bytes ← takeNamed (.plain .bytes) "bytes"
    return .bigInteger (TwosComplement.decode bytes)
  build.run' values

/-- The adapter for integers of any size. -/
def bigIntegerInfo : TypeInfo where
  type := .bigInteger
  path := TypeId.bigInteger.name
  schemaName := some "BigInteger"
  adapter := some "BigIntegerAdapter"
  kind := .message
    { members :=
        [{ name := "bytes", kind := .field (.scalar .bytes), getter := bigIntegerBytes,
           number := some 1 }]
      factory := bigIntegerFactory
      factoryParams := some ["bytes"] }

/-! ## Arrays

The size is a field of its own, in front of the elements. Building an array compares it with the
number of elements that came. -/

/-- How an array type holds its elements. -/
structure ArrayForm where
  type : TypeId
  path : String
  schemaName : String
  adapter : String
  scalar : Scalar
  element : NativeType
  element_flat : ∀ a : element.Carrier, (element.toValue a).depth = 0
  /-- The elements of an instance of this type. -/
  elements? : Instance → Option (List element.Carrier)
  ofElements : List element.Carrier → Instance

namespace ArrayForm

/-- The array's size, which must fit 32 bits. -/
def sizeGetter (f : ArrayForm) : Getter :=
  .shallow (fun i ↦
      match f.elements? i with
      | some as => if as.length < UInt32.size then some (.u32 (UInt32.ofNat as.length)) else none
      | none => none)
    (by
      intro i v h
      split at h
      · split at h
        · cases h
          rfl
        · cases h
      · cases h)

theorem listDepth_elements (f : ArrayForm) (as : List f.element.Carrier) :
    Value.listDepth (as.map f.element.toValue) = 0 := by
  induction as with
  | nil => rfl
  | cons a rest ih => simp [Value.listDepth, f.element_flat, ih]

def elementsGetter (f : ArrayForm) : Getter :=
  .shallow (fun i ↦ (f.elements? i).map fun as ↦ .list (as.map f.element.toValue))
    (by
      intro i v h
      obtain ⟨as, -, rfl⟩ := Option.map_eq_some_iff.1 h
      rw [Value.depth]
      exact f.listDepth_elements as)

/-- Builds an array from its elements if their number is the declared size. -/
def factory (f : ArrayForm) : Factory := fun values ↦
  let build : Take Instance := do
    let size : UInt32 ← take (.plain .u32) 0
    let elements : List f.element.Carrier ← take (.list f.element) 1
    if size.toNat = elements.length then return f.ofElements elements
    else
      throw (.invalid (← get).typePath
        ("declared size " ++ toString size.toNat ++ " but " ++ toString elements.length
          ++ " elements"))
  build.run' values

/-- The adapter for an array type. -/
def info (f : ArrayForm) : TypeInfo where
  type := f.type
  path := f.path
  schemaName := some f.schemaName
  adapter := some f.adapter
  kind := .message
    { members :=
        [{ name := "size", kind := .field (.scalar .uint32), getter := f.sizeGetter,
           number := some 1 },
         { name := "elements", kind := .field (.repeated (.scalar f.scalar)),
           getter := f.elementsGetter, number := some 2 }]
      factory := f.factory }

def integers : ArrayForm where
  type := .integers
  path := "Box<[i32]>"
  schemaName := "BoxedIntegerArray"
  adapter := "BoxedIntegerArrayAdapter"
  scalar := .int32
  element := .plain .i32
  element_flat _ := rfl
  elements?
    | .integers as => some as
    | _ => none
  ofElements := .integers

def longs : ArrayForm where
  type := .longs
  path := "Box<[i64]>"
  schemaName := "BoxedLongArray"
  adapter := "BoxedLongArrayAdapter"
  scalar := .int64
  element := .plain .i64
  element_flat _ := rfl
  elements?
    | .longs as => some as
    | _ => none
  ofElements := .longs

def doubles : ArrayForm where
  type := .doubles
  path := "Box<[f64]>"
  schemaName := "BoxedDoubleArray"
  adapter := "BoxedDoubleArrayAdapter"
  scalar := .double
  element := .f64
  element_flat _ := rfl
  elements?
    | .doubles as => some as
    | _ => none
  ofElements := .doubles

def booleans : ArrayForm where
  type := .booleans
  path := "Box<[bool]>"
  schemaName := "BoxedBooleanArray"
  adapter := "BoxedBooleanArrayAdapter"
  scalar := .bool
  element := .plain .bool
  element_flat _ := rfl
  elements?
    | .booleans as => some as
    | _ => none
  ofElements := .booleans

end ArrayForm

/-! ## The built-in adapters

There is one adapter for each of these types, and it is only asked for where a reference carries no
description. -/

def builtinAdapters : List TypeInfo :=
  [ArrayForm.integers.info, ArrayForm.longs.info, ArrayForm.doubles.info,
    ArrayForm.booleans.info, bigIntegerInfo]

/-- The built-in adapter that describes a type. -/
def builtinAdapter? (type : TypeId) : Option TypeInfo :=
  builtinAdapters.find? fun i ↦ decide (i.type = type)

namespace TypeRef

/-- A reference through the built-in adapter of a type, if it has one. -/
def builtin? (type : TypeId) : Option TypeRef :=
  (builtinAdapter? type).map fun i ↦ ⟨i.type, .builtin⟩

/-- A reference through the built-in adapter of a type, or else to the bare type. -/
def adapted (type : TypeId) : TypeRef := (builtin? type).getD (.foreign type)

end TypeRef

end ProtoSchema
