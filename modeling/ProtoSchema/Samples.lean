import ProtoSchema.Types.Record

/-!
# Sample types

A small set of record and enum types on which the library can be watched at work. Between them they
use every kind of member: all scalar kinds, overridden encodings, lists, maps, open and closed
enums, oneofs, defaults, flattened and foreign members, and retained unknown fields. The path of the
module that declares them is a parameter.
-/

set_option autoImplicit false

namespace ProtoSchema.Samples

def sampleType (module : String) (name : String) : TypeId := ⟨module ++ "::" ++ name⟩

/-- An enum whose values count up from zero. -/
def color (module : String) : NativeEnum := ⟨sampleType module "Color", [0, 1, 2]⟩

/-- An enum with gaps and without zero. -/
def level (module : String) : NativeEnum :=
  ⟨sampleType module "Level", [-5, -4, 10, 11, 2147483647]⟩

/-- The values of the two enums, with their descriptions. -/
def enumInfos (module : String) : List TypeInfo :=
  [{ type := (color module).type
     path := (color module).type.name
     kind := .enum
       [{ name := "Red", number := 0 }, { name := "Green", number := 1 },
         { name := "Blue", number := 2 }] },
   { type := (level module).type
     path := (level module).type.name
     docs := some "How high.\n\nNot contiguous."
     kind := .enum
       [{ name := "VeryLow", number := -5 }, { name := "Low", number := -4 },
         { name := "Middle", number := 10, docs := some "The middle." },
         { name := "HTTPHigh2", number := 11 },
         { name := "Top", number := 2147483647, schemaName := some "top"
           docs := some "Custom." }] }]

/-- A member with a number and what else is declared about it. -/
def member (number : Nat) (name : String) (type : NativeType)
    (declare : Member → Member) : RecordMember :=
  ⟨name, .native type, fun m ↦ declare { m with number := some number }⟩

def simple (number : Nat) (name : String) (type : NativeType) : RecordMember :=
  member number name type id

def foreign (number : Nat) (name : String) (storage : Storage) : RecordMember :=
  ⟨name, storage, fun m ↦ { m with number := some number }⟩

def withDefault (d : DefaultLiteral) (m : Member) : Member := { m with default := some d }

def withScalar (s : Scalar) (m : Member) : Member := { m with scalar := some s }

def inGroup (group : String) (m : Member) : Member := { m with oneof := some group }

/-! ## Types -/

def point (module : String) : RecordType where
  type := sampleType module "Point"
  members := [simple 1 "x" (.plain .i32), member 2 "y" (.plain .i32) (withScalar .sint32)]

/-- A person with a required number. -/
def person (module : String) : RecordType where
  type := sampleType module "Person"
  members :=
    [member 1 "id" (.plain .i32) ({ · with required := true, docs := some "Unique id." }),
      simple 2 "tags" (.list (.plain .string))]

/-- One member of every kind. -/
def mixed (module : String) : RecordType where
  type := sampleType module "Mixed"
  members :=
    [simple 1 "a" (.plain .i32), member 2 "b" (.plain .i64) (withScalar .sint64),
      member 3 "c" (.plain .u32) (withScalar .fixed32), simple 4 "d" .f64,
      simple 5 "e" (.plain .string), simple 6 "f" (.list (.plain .u64)),
      simple 7 "g" (.optional (.plain .bool)), simple 8 "h" (.plain .bytes),
      simple 9 "i" (.list (.closedEnum (color module))),
      member 10 "j" .f32 ({ · with schemaName := some "jay", required := true })]

/-- Maps, open enums and boxed members; unknown fields are kept. -/
def holder (module : String) : RecordType where
  type := sampleType module "Holder"
  members :=
    [simple 1 "by_name" (.sortedMap .string (.message (point module).type)),
      simple 2 "levels" (.sortedMap .i32 (.closedEnum (level module))),
      member 3 "open" (.list (.openEnum (level module))) ({ · with packed := some false }),
      simple 4 "boxed" (.boxed (.plain .u32)),
      simple 5 "maybe" (.optional (.boxed (.message (person module).type))),
      simple 6 "level" (.closedEnum (level module)),
      member 7 "best" (.openEnum (level module)) (withDefault (.text "top"))]
  keepsUnknown := true

/-- A oneof around a member of its own; unknown fields are kept. -/
def contact (module : String) : RecordType where
  type := sampleType module "Contact"
  members :=
    [member 1 "email" (.optional (.plain .string)) (inGroup "channel"),
      member 2 "color" (.optional (.closedEnum (color module))) (inGroup "channel"),
      simple 3 "note" (.plain .string),
      member 4 "at" (.optional (.message (point module).type)) (inGroup "channel")]
  keepsUnknown := true

/-- Members of foreign types. -/
def ledger (module : String) : RecordType where
  type := sampleType module "Ledger"
  members :=
    [foreign 1 "balance" (.foreign .bigInteger),
      foreign 2 "history" (.foreignList .bigInteger),
      foreign 3 "limit" (.foreignOptional .bigInteger),
      foreign 4 "samples" (.foreign .integers)]

/-- A type that contains itself. -/
def node (module : String) : RecordType where
  type := sampleType module "Node"
  members := [simple 1 "child" (.optional (.boxed (.message (sampleType module "Node"))))]

/-- A person with a name, by flattening. -/
def namedEntity (module : String) : RecordType where
  type := sampleType module "NamedEntity"
  members := [⟨"base", .flatten (person module).type, id⟩, simple 3 "name" (.plain .string)]

/-- Defaults of every kind. -/
def settings (module : String) : RecordType where
  type := sampleType module "Settings"
  members :=
    [member 1 "retries" (.plain .i32) (withDefault (.int (-42))),
      member 2 "user" (.plain .string) (withDefault (.text "guest")),
      member 3 "verbose" (.optional (.plain .bool)) (withDefault (.bool true)),
      member 4 "color" (.closedEnum (color module)) (withDefault (.text "BLUE")),
      member 5 "ratio" .f64 (withDefault (.float ⟨0xBFF8000000000000⟩)),
      member 6 "size" (.plain .u64) (withDefault (.int 7))]

/-- The description of a record, with its name in schemas and its documentation. -/
def recordInfo (r : RecordType) (schemaName docs : Option String) : TypeInfo :=
  { type := r.type, path := r.type.name, schemaName, docs, kind := .message r.info }

def environment (module : String) : Environment :=
  enumInfos module
    ++ [recordInfo (point module) none none, recordInfo (person module) none (some "A person."),
      recordInfo (mixed module) none none, recordInfo (holder module) none none,
      recordInfo (contact module) none none, recordInfo (ledger module) none none,
      recordInfo (node module) none none,
      recordInfo (namedEntity module) (some "Named") (some "Flattens."),
      recordInfo (settings module) none none]

end ProtoSchema.Samples
