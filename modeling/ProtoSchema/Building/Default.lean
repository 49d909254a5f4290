import ProtoSchema.Schema.Descriptor
import ProtoSchema.Types.Dump

/-!
# Checked defaults

A declared default becomes a default of its field: integers must fit the field's kind, floating
fields take integers too, and enum fields take the name of a value, in either spelling, or its
number. The error of a default that does not fit is the reason alone.
-/

set_option autoImplicit false

namespace ProtoSchema

namespace DefaultLiteral

/-- The reason that an integer is refused. -/
def outOfRange (l : DefaultLiteral) (kind : ScalarKind) : String :=
  l.dump ++ " is out of range for " ++ kind.name

/-- The default of a scalar field of the given kind. -/
def forScalar (kind : ScalarKind) (l : DefaultLiteral) : Except String DefaultValue :=
  match kind, l with
  | .bool, bool b => .ok (.bool b)
  | .i32, int n =>
    if Int32.minValue.toInt ≤ n.toInt ∧ n.toInt ≤ Int32.maxValue.toInt then .ok (.int n)
    else .error (l.outOfRange kind)
  | .i64, int n => .ok (.int n)
  | .u32, int n =>
    if 0 ≤ n.toInt ∧ n.toInt < UInt32.size then .ok (.uint n.toUInt64)
    else .error (l.outOfRange kind)
  | .u64, int n => if 0 ≤ n.toInt then .ok (.uint n.toUInt64) else .error (l.outOfRange kind)
  | .f32, float x => .ok (.float x)
  | .f64, float x => .ok (.float x)
  | .f32, int n => .ok (.float (.ofInt n.toInt))
  | .f64, int n => .ok (.float (.ofInt n.toInt))
  | .string, text s => .ok (.string s)
  | .bytes, text s => .ok (.bytes s.toUTF8.toList)
  | _, _ => .error (l.dump ++ " is not a " ++ kind.name ++ " value")

/-- Whether a literal means an enum value. -/
def means (l : DefaultLiteral) (v : Variant) : Bool :=
  match l with
  | text name => v.valueName == name || v.name == name
  | int n => v.number.toInt == n.toInt
  | _ => false

/-- The default of a field of the referenced enum. -/
def forEnum (env : Environment) (type : TypeRef) (l : DefaultLiteral) :
    Except String DefaultValue :=
  match (type.info? env).bind TypeInfo.variants? with
  | none => .error ("`" ++ type.path env ++ "` has no known values")
  | some variants =>
    match variants.find? l.means with
    | some v => .ok (.enum v.valueName v.number)
    | none => .error (l.dump ++ " is not a value of `" ++ type.path env ++ "`")

end DefaultLiteral

end ProtoSchema
