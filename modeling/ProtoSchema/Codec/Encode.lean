import ProtoSchema.Codec.Error
import ProtoSchema.Codec.Scalar
import ProtoSchema.Registry.Basic
import ProtoSchema.Wire.Unknown

/-!
# Encoding

Encoding writes the fields of a message in the order of its descriptor and then the unknown fields
that the instance retains. A field that cannot tell being unset from holding its default is not
written when it holds its default. Nested messages are written by a function that is passed in;
since values nest less deeply than the instances they are read from, passing the whole function to
itself is well founded.
-/

set_option autoImplicit false

namespace ProtoSchema

open Wire

/-! ## Elements and fields

What is written for a field depends on the value that its getter lends. A value of the wrong shape
is an error, whatever it holds, unless it counts as the default first. -/

/-- Whether a value is what a missing field stands for. Without a declared default that is zero,
except for enums, whose first value need not be zero. -/
def isDefault (v : Value) (default : Option DefaultValue) : Bool :=
  match default with
  | none =>
    match v with
    | .enum _ => false
    | v => v.isZero
  | some d =>
    match v, d with
    | .bool b, .bool d => b == d
    | .i32 n, .int d => n.toInt64 == d
    | .i64 n, .int d => n == d
    | .u32 n, .uint d => n.toUInt64 == d
    | .u64 n, .uint d => n == d
    | .f32 x, .float d => x.numericallyEqual d.toBinary32
    | .f64 x, .float d => x.numericallyEqual d
    | .string s, .string d => s == d
    | .bytes b, .bytes d => b == d
    | .enum n, .enum _ d => n == d
    | _, _ => false

namespace MessageMarshaller

def mismatch (m : MessageMarshaller) (plan : Plan) : EncodeError :=
  .valueMismatch m.descriptor.qualifiedName plan.field.name

def writeScalar (m : MessageMarshaller) (plan : Plan) (s : Scalar) (v : Value) :
    Except EncodeError Bytes :=
  match s.toPayload? v with
  | some payload => .ok payload.encode
  | none => .error (m.mismatch plan)

def writeElement (m : MessageMarshaller) (reg : Registry)
    (nested : MessageMarshaller → Instance → Except EncodeError Bytes) (plan : Plan)
    (v : Value) : Except EncodeError Bytes :=
  match plan.element, v with
  | .scalar s, v => m.writeScalar plan s v
  | .enum _ _, .enum n => .ok (Varint.encode n.toInt64.toUInt64)
  | .message target, .message i =>
    match reg.messageMarshaller? target with
    | some inner => (nested inner i).map writeLengthDelimited
    | none => .error (.unknownType plan.targetName)
  | _, _ => .error (m.mismatch plan)

/-- The bytes of an element behind a tag. -/
def writeTagged (m : MessageMarshaller) (reg : Registry)
    (nested : MessageMarshaller → Instance → Except EncodeError Bytes) (plan : Plan)
    (number : Nat) (v : Value) : Except EncodeError Bytes :=
  (m.writeElement reg nested plan v).map (Tag.encode ⟨number, plan.element.wireType⟩ ++ ·)

/-- The bytes of a map entry behind its tag. -/
def writeEntry (m : MessageMarshaller) (reg : Registry)
    (nested : MessageMarshaller → Instance → Except EncodeError Bytes) (plan : Plan)
    (keyType : Scalar) (key value : Value) : Except EncodeError Bytes := do
  let keyBytes ← m.writeScalar plan keyType key
  let valueBytes ← m.writeTagged reg nested plan 2 value
  return Tag.encode ⟨plan.field.number, .lengthDelimited⟩
    ++ writeLengthDelimited (Tag.encode ⟨1, keyType.wireType⟩ ++ keyBytes ++ valueBytes)

def writeAll {α : Type} (write : α → Except EncodeError Bytes) :
    List α → Except EncodeError Bytes
  | [] => .ok []
  | a :: rest => do return (← write a) ++ (← writeAll write rest)

/-- Whether a field is left out when it holds its default. -/
def isImplicit (plan : Plan) : Bool := !plan.field.presence && plan.field.cardinality == .optional

def writeField (m : MessageMarshaller) (reg : Registry)
    (nested : MessageMarshaller → Instance → Except EncodeError Bytes) (plan : Plan)
    (v : Value) : Except EncodeError Bytes :=
  match plan.field.cardinality with
  | .required | .optional =>
    if v.isAbsent then
      if plan.field.cardinality = .required then
        .error (.required m.descriptor.qualifiedName plan.field.name)
      else .ok []
    else if isImplicit plan && isDefault v plan.field.default then .ok []
    else m.writeTagged reg nested plan plan.field.number v
  | .repeated =>
    match v with
    | .list vs =>
      if vs.isEmpty then .ok []
      else if plan.field.packed then
        (writeAll (m.writeElement reg nested plan) vs).map fun run ↦
          Tag.encode ⟨plan.field.number, .lengthDelimited⟩ ++ writeLengthDelimited run
      else writeAll (m.writeTagged reg nested plan plan.field.number) vs
    | _ => .error (m.mismatch plan)
  | .map =>
    match v, plan.field.mapKey with
    | .map es, some keyType =>
      writeAll (fun (key, value) ↦ m.writeEntry reg nested plan keyType key value) es
    | _, _ => .error (m.mismatch plan)

/-- The bytes of the field that a plan is for. -/
def writePlan (m : MessageMarshaller) (reg : Registry)
    (nested : MessageMarshaller → Instance → Except EncodeError Bytes) (i : Instance)
    (plan : Plan) : Except EncodeError Bytes :=
  match m.layout.get? i plan.path with
  | some v => m.writeField reg nested plan v
  | none => .error (m.mismatch plan)

/-! ## Messages

Fields are written in the order of the descriptor, and the retained records behind them. -/

/-- The unknown fields that an instance retains. -/
def retained (m : MessageMarshaller) (i : Instance) : UnknownFields :=
  ((m.layout.unknown).bind fun lend ↦ lend i).getD .empty

/-- Writes a message with the given writer for nested messages. -/
def encodeWith (m : MessageMarshaller) (reg : Registry)
    (nested : MessageMarshaller → Instance → Except EncodeError Bytes) (i : Instance) :
    Except EncodeError Bytes :=
  -- Getters only see instances of the type that they were declared for.
  if i.type = m.type then do
    return (← writeAll (m.writePlan reg nested i) m.plans) ++ (m.retained i).bytes
  else .error (.instanceMismatch m.path)

end MessageMarshaller

namespace Registry

/-- Writes an instance with a marshaller. Whatever a getter reads nests less deeply than the
instance it is read from, so the comparison of depths always succeeds. -/
def write (reg : Registry) (m : MessageMarshaller) (i : Instance) : Except EncodeError Bytes :=
  m.encodeWith reg
    (fun inner j ↦
      if j.depth < i.depth then reg.write inner j else .error (.instanceMismatch inner.path))
    i
termination_by i.depth

def encode (reg : Registry) (i : Instance) : Except EncodeError Bytes :=
  match reg.messageMarshaller? i.type with
  | some m => reg.write m i
  | none => .error (.unknownType i.type.name)

end Registry

end ProtoSchema
