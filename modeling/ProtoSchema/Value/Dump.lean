import ProtoSchema.Text.Quoted
import ProtoSchema.Value.Basic

/-!
# Dumps of values

A value written out for a reader, with the name of its kind around it. Bytes are shown as text when
the value owns them and as a list of numbers when it only borrows them; instances are not shown.
-/

set_option autoImplicit false

namespace ProtoSchema

open Text

/-- How the bytes of a value are shown. -/
inductive BytesForm where
  | asText
  | asNumbers
  deriving DecidableEq, Repr

def BytesForm.show : BytesForm → Bytes → String
  | asText, b => quoteBytes b
  | asNumbers, b => "[" ++ ", ".intercalate (b.map fun n ↦ toString n.toNat) ++ "]"

namespace Value

mutual

def dump (form : BytesForm) : Value → String
  | .bool b => "Bool(" ++ toString b ++ ")"
  | .i32 n => "I32(" ++ toString n.toInt ++ ")"
  | .i64 n => "I64(" ++ toString n.toInt ++ ")"
  | .u32 n => "U32(" ++ toString n.toNat ++ ")"
  | .u64 n => "U64(" ++ toString n.toNat ++ ")"
  | .f32 x => "F32(" ++ x.plain ++ ")"
  | .f64 x => "F64(" ++ x.plain ++ ")"
  | .string s => "String(" ++ quote s ++ ")"
  | .bytes b => "Bytes(" ++ form.show b ++ ")"
  | .enum n => "Enum(" ++ toString n.toInt ++ ")"
  | .message _ => "Message(..)"
  | .list vs => "List([" ++ ", ".intercalate (dumpList form vs) ++ "])"
  | .map es => "Map([" ++ ", ".intercalate (dumpEntries form es) ++ "])"
  | .absent => "Absent"

def dumpList (form : BytesForm) : List Value → List String
  | [] => []
  | v :: rest => dump form v :: dumpList form rest

def dumpEntries (form : BytesForm) : List (Value × Value) → List String
  | [] => []
  | (k, v) :: rest =>
    ("(" ++ dump form k ++ ", " ++ dump form v ++ ")") :: dumpEntries form rest

end

end Value

end ProtoSchema
