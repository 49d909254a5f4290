import ProtoSchema.Floating.Basic
import ProtoSchema.Wire.Unknown

/-!
# Values and instances

An instance is an object of a native type: a record with the values of its members, or an object of
one of the foreign types that adapters describe. A value is what a member of an instance holds, in
the shape in which it crosses the wire. The two are defined together, because a value may be an
instance. How deeply instances nest is what bounds every recursion over them.
-/

set_option autoImplicit false

namespace ProtoSchema

open Wire

/-- The identity of a native type, by the full name of the type. -/
structure TypeId where
  name : String
  deriving DecidableEq, Repr, Hashable, Inhabited

mutual

/-- The value of a member or of one of its elements. -/
inductive Value where
  | bool (b : Bool)
  | i32 (n : Int32)
  | i64 (n : Int64)
  | u32 (n : UInt32)
  | u64 (n : UInt64)
  | f32 (x : Binary32)
  | f64 (x : Binary64)
  | string (s : String)
  | bytes (b : Bytes)
  | enum (number : Int32)
  | message (i : Instance)
  | list (elements : List Value)
  | map (entries : List (Value × Value))
  /-- An unset member that tells being unset from holding a default. -/
  | absent

/-- An object of a native type. -/
inductive Instance where
  /-- The members in order, where a member without a value cannot be read at all; the state that
  no member shows; and the unknown fields that the object retains. -/
  | record (type : TypeId) (members : List (Option Value)) (hidden : List Value)
      (unknown : UnknownFields)
  | bigInteger (n : Int)
  | integers (elements : List Int32)
  | longs (elements : List Int64)
  | doubles (elements : List Binary64)
  | booleans (elements : List Bool)
  | text (s : String)

end

/-! ## Identities of the foreign types -/

namespace TypeId

def bigInteger : TypeId := ⟨"num_bigint::bigint::BigInt"⟩

def integers : TypeId := ⟨"alloc::boxed::Box<[i32]>"⟩

def longs : TypeId := ⟨"alloc::boxed::Box<[i64]>"⟩

def doubles : TypeId := ⟨"alloc::boxed::Box<[f64]>"⟩

def booleans : TypeId := ⟨"alloc::boxed::Box<[bool]>"⟩

def text : TypeId := ⟨"alloc::string::String"⟩

end TypeId

def Instance.type : Instance → TypeId
  | record type _ _ _ => type
  | bigInteger _ => .bigInteger
  | integers _ => .integers
  | longs _ => .longs
  | doubles _ => .doubles
  | booleans _ => .booleans
  | text _ => .text

/-! ## Nesting depth

Depth is counted through lists, maps and records alike, and only instances count. -/

mutual

/-- How many instances nest in a value. -/
def Value.depth : Value → Nat
  | .message i => i.depth
  | .list elements => Value.listDepth elements
  | .map entries => Value.entriesDepth entries
  | _ => 0

def Value.listDepth : List Value → Nat
  | [] => 0
  | v :: rest => max v.depth (Value.listDepth rest)

def Value.entriesDepth : List (Value × Value) → Nat
  | [] => 0
  | (k, v) :: rest => max (max k.depth v.depth) (Value.entriesDepth rest)

def Value.membersDepth : List (Option Value) → Nat
  | [] => 0
  | none :: rest => Value.membersDepth rest
  | some v :: rest => max v.depth (Value.membersDepth rest)

/-- How many instances nest in an instance, itself included. -/
def Instance.depth : Instance → Nat
  | .record _ members _ _ => Value.membersDepth members + 1
  | _ => 1

end

theorem Value.depth_le_listDepth {v : Value} {vs : List Value} (h : v ∈ vs) :
    v.depth ≤ Value.listDepth vs := by
  induction vs with
  | nil => cases h
  | cons w rest ih =>
    rw [Value.listDepth]
    rcases List.mem_cons.1 h with rfl | h
    · omega
    · have := ih h
      omega

theorem Value.depth_le_entriesDepth {k v : Value} {es : List (Value × Value)}
    (h : (k, v) ∈ es) : k.depth ≤ Value.entriesDepth es ∧ v.depth ≤ Value.entriesDepth es := by
  induction es with
  | nil => cases h
  | cons e rest ih =>
    obtain ⟨k', v'⟩ := e
    rw [Value.entriesDepth]
    rcases List.mem_cons.1 h with h | h
    · cases h
      omega
    · have := ih h
      omega

theorem Value.depth_le_membersDepth {v : Value} {ms : List (Option Value)} (h : some v ∈ ms) :
    v.depth ≤ Value.membersDepth ms := by
  induction ms with
  | nil => cases h
  | cons m rest ih =>
    rcases List.mem_cons.1 h with rfl | h'
    · rw [Value.membersDepth]
      omega
    · have := ih h'
      cases m with
      | none => rwa [Value.membersDepth]
      | some w =>
        rw [Value.membersDepth]
        omega

/-- Every instance counts itself. -/
theorem Instance.depth_pos (i : Instance) : 0 < i.depth := by
  cases i <;> simp [Instance.depth]

namespace Value

def kindName : Value → String
  | bool _ => "bool"
  | i32 _ => "i32"
  | i64 _ => "i64"
  | u32 _ => "u32"
  | u64 _ => "u64"
  | f32 _ => "f32"
  | f64 _ => "f64"
  | string _ => "string"
  | bytes _ => "bytes"
  | enum _ => "enum"
  | message _ => "message"
  | list _ => "list"
  | map _ => "map"
  | absent => "absent"

/-- Whether a member holds nothing. -/
def isAbsent : Value → Bool
  | absent => true
  | _ => false

/-- Whether a value is the zero of its kind, bit for bit; a message never is. -/
def isZero : Value → Bool
  | bool b => !b
  | i32 n => n == 0
  | i64 n => n == 0
  | u32 n => n == 0
  | u64 n => n == 0
  | f32 x => x.bits == 0
  | f64 x => x.bits == 0
  | string s => s.isEmpty
  | bytes b => b.isEmpty
  | enum n => n == 0
  | message _ => false
  | list vs => vs.isEmpty
  | map es => es.isEmpty
  | absent => true

end Value

end ProtoSchema
