import ProtoSchema.Value.Error

/-!
# Native field types

The native types that a member may have: scalars, enums, messages, and optional values, lists and
maps of these. Each denotes a type of its own, and values cross between the two in both directions:
`toValue` never fails, `fromValue` fails on a value of the wrong kind.

A closed enum holds one of its declared values, an open enum also any other number. A sorted map
keeps its keys ascending, a hashed map in the order in which they first came; in both a later entry
replaces an earlier one with the same key.
-/

set_option autoImplicit false

namespace ProtoSchema

/-! ## Enums -/

/-- A native enum: the numbers of its values in declaration order. -/
structure NativeEnum where
  type : TypeId
  numbers : List Int32
  deriving DecidableEq, Repr

namespace NativeEnum

/-- A declared value, by its position. -/
abbrev Known (e : NativeEnum) := Fin e.numbers.length

def number (e : NativeEnum) (k : e.Known) : Int32 := e.numbers.get k

/-- The first declared value with a number. -/
def ofNumber? (e : NativeEnum) (n : Int32) : Option e.Known :=
  (List.finRange e.numbers.length).find? fun k ↦ e.number k == n

def first? (e : NativeEnum) : Option e.Known := (List.finRange e.numbers.length).head?

theorem number_of_ofNumber? {e : NativeEnum} {n : Int32} {k : e.Known}
    (h : e.ofNumber? n = some k) : e.number k = n := by
  have := List.find?_some h
  simpa using this

end NativeEnum

/-! ## Keys and maps

A map goes through the entries of a value in their order, and a later one replaces an earlier one
with its key. -/

/-- The types that may be keys of native maps. -/
inductive KeyType where
  | bool | i32 | i64 | u32 | u64 | string | bytes
  | boxed (k : KeyType)
  deriving DecidableEq, Repr

namespace KeyType

/-- Every key type that is not boxed. -/
def all : List KeyType := [bool, i32, i64, u32, u64, string, bytes]

def name : KeyType → String
  | bool => "bool"
  | i32 => "i32"
  | i64 => "i64"
  | u32 => "u32"
  | u64 => "u64"
  | string => "string"
  | bytes => "bytes"
  | boxed k => k.name

/-- The keys of a native map. -/
abbrev Carrier : KeyType → Type
  | bool => Bool
  | i32 => Int32
  | i64 => Int64
  | u32 => UInt32
  | u64 => UInt64
  | string => String
  | bytes => Bytes
  | boxed k => k.Carrier

def same : (k : KeyType) → k.Carrier → k.Carrier → Bool
  | bool, a, b => decide (a = b)
  | i32, a, b => decide (a = b)
  | i64, a, b => decide (a = b)
  | u32, a, b => decide (a = b)
  | u64, a, b => decide (a = b)
  | string, a, b => decide (a = b)
  | bytes, a, b => decide (a = b)
  | boxed k, a, b => k.same a b

/-- The order of keys: numbers by size, text by code points, bytes as words in a dictionary. -/
def less : (k : KeyType) → k.Carrier → k.Carrier → Bool
  | bool, a, b => !a && b
  | i32, a, b => decide (a < b)
  | i64, a, b => decide (a < b)
  | u32, a, b => decide (a < b)
  | u64, a, b => decide (a < b)
  | string, a, b => decide (a < b)
  | bytes, a, b => decide (a < b)
  | boxed k, a, b => k.less a b

/-- The zero of a key type. -/
def zero : (k : KeyType) → k.Carrier
  | bool => false
  | i32 => (0 : Int32)
  | i64 => (0 : Int64)
  | u32 => (0 : UInt32)
  | u64 => (0 : UInt64)
  | string => ""
  | bytes => ([] : Bytes)
  | boxed k => k.zero

def toValue : (k : KeyType) → k.Carrier → Value
  | bool, a => .bool a
  | i32, a => .i32 a
  | i64, a => .i64 a
  | u32, a => .u32 a
  | u64, a => .u64 a
  | string, a => .string a
  | bytes, a => .bytes a
  | boxed k, a => k.toValue a

/-- The key that a value holds. -/
def fromValue : (k : KeyType) → Value → Except ValueError k.Carrier
  | bool, .bool a => .ok a
  | i32, .i32 a => .ok a
  | i64, .i64 a => .ok a
  | u32, .u32 a => .ok a
  | u64, .u64 a => .ok a
  | string, .string a => .ok a
  | bytes, .bytes a => .ok a
  | boxed k, v => k.fromValue v
  | k, v => .error (v.mismatch k.name)

theorem fromValue_toValue (k : KeyType) (a : k.Carrier) : k.fromValue (k.toValue a) = .ok a := by
  induction k with
  | boxed k ih => exact ih a
  | _ => rfl

theorem eq_toValue_of_fromValue {k : KeyType} {v : Value} {a : k.Carrier}
    (h : k.fromValue v = .ok a) : v = k.toValue a := by
  induction k with
  | boxed k ih => exact ih h
  | _ =>
    cases v <;> cases h
    rfl

end KeyType

/-- Puts an entry into an ascending list of entries. -/
def insertSorted {α : Type} (k : KeyType) (key : k.Carrier) (a : α) :
    List (k.Carrier × α) → List (k.Carrier × α)
  | [] => [(key, a)]
  | (key', a') :: rest =>
    if k.same key key' then (key', a) :: rest
    else if k.less key key' then (key, a) :: (key', a') :: rest
    else (key', a') :: insertSorted k key a rest

/-- Puts an entry into a list of entries in the order of their coming. -/
def insertInOrder {α : Type} (k : KeyType) (key : k.Carrier) (a : α) :
    List (k.Carrier × α) → List (k.Carrier × α)
  | [] => [(key, a)]
  | (key', a') :: rest =>
    if k.same key key' then (key', a) :: rest else (key', a') :: insertInOrder k key a rest

/-- The native map that a value stands for. Its entries are put into it in the order in which they
stand. -/
def mapFrom {α β : Type} (key : Value → Except ValueError α) (value : Value → Except ValueError β)
    (put : α → β → List (α × β) → List (α × β)) : Value → Except ValueError (List (α × β))
  | .map es => do
    let entries ← es.mapM fun (k, v) ↦ do
      let k ← key k
      let v ← value v
      return (k, v)
    return entries.foldl (fun m (k, v) ↦ put k v m) []
  | other => .error (other.mismatch "map")

/-! ## Field types -/

/-- A native field type. -/
inductive NativeType where
  /-- A type that may also be a key. -/
  | plain (k : KeyType)
  | f32
  | f64
  | closedEnum (e : NativeEnum)
  | openEnum (e : NativeEnum)
  | message (type : TypeId)
  | optional (t : NativeType)
  | boxed (t : NativeType)
  | list (t : NativeType)
  | sortedMap (k : KeyType) (t : NativeType)
  | hashedMap (k : KeyType) (t : NativeType)
  deriving Repr

namespace NativeType

/-- The native values of a type. -/
abbrev Carrier : NativeType → Type
  | plain k => k.Carrier
  | f32 => Binary32
  | f64 => Binary64
  | closedEnum e => e.Known
  | openEnum e => e.Known ⊕ Int32
  | message type => { i : Instance // i.type = type }
  | optional t => Option t.Carrier
  | boxed t => t.Carrier
  | list t => List t.Carrier
  | sortedMap k t => List (k.Carrier × t.Carrier)
  | hashedMap k t => List (k.Carrier × t.Carrier)

/-- How a native value crosses the wire. -/
def toValue : (t : NativeType) → t.Carrier → Value
  | plain k, a => k.toValue a
  | f32, a => .f32 a
  | f64, a => .f64 a
  | closedEnum e, a => .enum (e.number a)
  | openEnum e, .inl a => .enum (e.number a)
  | openEnum _, .inr n => .enum n
  | message _, a => .message a.1
  | optional t, some a => t.toValue a
  | optional _, none => .absent
  | boxed t, a => t.toValue a
  | list t, as => .list (as.map t.toValue)
  | sortedMap k t, es => .map (es.map fun (key, a) ↦ (k.toValue key, t.toValue a))
  | hashedMap k t, es => .map (es.map fun (key, a) ↦ (k.toValue key, t.toValue a))

/-- The native value that a value stands for. -/
def fromValue : (t : NativeType) → Value → Except ValueError t.Carrier
  | plain k, v => k.fromValue v
  | f32, v =>
    match v with
    | .f32 a => .ok a
    | other => .error (other.mismatch "f32")
  | f64, v =>
    match v with
    | .f64 a => .ok a
    | other => .error (other.mismatch "f64")
  | closedEnum e, v =>
    match v with
    | .enum n =>
      match e.ofNumber? n with
      | some a => .ok a
      | none => .error (.unknownEnumValue e.type.name n)
    | other => .error (other.mismatch "enum")
  | openEnum e, v =>
    match v with
    | .enum n =>
      match e.ofNumber? n with
      | some a => .ok (.inl a)
      | none => .ok (.inr n)
    | other => .error (other.mismatch "enum")
  | message type, v =>
    match v with
    | .message i =>
      if h : i.type = type then .ok ⟨i, h⟩ else .error (.typeMismatch type.name "message")
    | other => .error (other.mismatch "message")
  | optional t, v => (t.fromValue v).map some
  | boxed t, v => t.fromValue v
  | list t, v =>
    match v with
    | .list vs => vs.mapM t.fromValue
    | other => .error (other.mismatch "list")
  | sortedMap k t, v => mapFrom k.fromValue t.fromValue (insertSorted k) v
  | hashedMap k t, v => mapFrom k.fromValue t.fromValue (insertInOrder k) v

/-- The native value of a member that never came and has no default, if there is one. -/
def missing? : (t : NativeType) → Option t.Carrier
  | plain k => some k.zero
  | f32 => some (⟨0⟩ : Binary32)
  | f64 => some (⟨0⟩ : Binary64)
  | closedEnum e => e.first?
  | openEnum e => e.first?.map Sum.inl
  | message _ => none
  | optional t => some (none : Option t.Carrier)
  | boxed t => t.missing?
  | list t => some ([] : List t.Carrier)
  | sortedMap k t => some ([] : List (k.Carrier × t.Carrier))
  | hashedMap k t => some ([] : List (k.Carrier × t.Carrier))

end NativeType

end ProtoSchema
