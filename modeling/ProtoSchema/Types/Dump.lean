import ProtoSchema.Text.Quoted
import ProtoSchema.Types.Environment

/-!
# Dumps of descriptions

Declarations written out on one line for a reader: literals, references, shapes and the members of
a message.
-/

set_option autoImplicit false

namespace ProtoSchema

open Text

def DefaultLiteral.dump : DefaultLiteral → String
  | bool b => "Bool(" ++ toString b ++ ")"
  | int n => "Int(" ++ toString n.toInt ++ ")"
  | float x => "Float(" ++ x.exact ++ ")"
  | text s => "Str(" ++ quote s ++ ")"

def Scalar.label : Scalar → String
  | double => "Double"
  | float => "Float"
  | int32 => "Int32"
  | int64 => "Int64"
  | uint32 => "UInt32"
  | uint64 => "UInt64"
  | sint32 => "SInt32"
  | sint64 => "SInt64"
  | fixed32 => "Fixed32"
  | fixed64 => "Fixed64"
  | sfixed32 => "SFixed32"
  | sfixed64 => "SFixed64"
  | bool => "Bool"
  | string => "String"
  | bytes => "Bytes"

def TypeRef.dump (env : Environment) (r : TypeRef) : String := "TypeRef(" ++ r.path env ++ ")"

def FieldType.dump (env : Environment) : FieldType → String
  | scalar s => "Scalar(" ++ s.label ++ ")"
  | enum type isOpen =>
    "Enum \x7b ty: " ++ type.dump env ++ ", open: " ++ toString isOpen ++ " \x7d"
  | message type => "Message(" ++ type.dump env ++ ")"
  | optional element => "Optional(" ++ element.dump env ++ ")"
  | repeated element => "Repeated(" ++ element.dump env ++ ")"
  | map key value => "Map(" ++ key.dump env ++ ", " ++ value.dump env ++ ")"

/-- The text of a value that may be missing. -/
def dumpOption (value : Option String) : String :=
  match value with
  | some text => "Some(" ++ text ++ ")"
  | none => "None"

/-- The texts of a list between brackets. -/
def dumpList (texts : List String) : String := "[" ++ ", ".intercalate texts ++ "]"

def Member.dump (env : Environment) (m : Member) : String :=
  "MemberInfo \x7b name: " ++ quote m.name
    ++ ", kind: " ++ (if m.isFlatten then "Flatten" else "Field")
    ++ ", number: " ++ dumpOption (m.number.map toString)
    ++ ", field_type: " ++ m.type.dump env ++ ", .. \x7d"

def MessageInfo.dump (env : Environment) (m : MessageInfo) : String :=
  "MessageInfo \x7b members: " ++ dumpList (m.members.map (·.dump env))
    ++ ", factory_params: " ++ dumpOption (m.factoryParams.map fun ps ↦ dumpList (ps.map quote))
    ++ ", unknown_fields: " ++ toString m.unknown.isSome ++ ", .. \x7d"

end ProtoSchema
