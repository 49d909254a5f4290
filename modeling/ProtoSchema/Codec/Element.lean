import ProtoSchema.Codec.Error
import ProtoSchema.Codec.Scalar
import ProtoSchema.Registry.Basic
import ProtoSchema.Wire.Reader

/-!
# Reading elements

One element of a field is a scalar, an enum number or a nested message. A number that a closed enum
does not declare is not an error: the element is rejected, and whoever asked for it keeps the
number among the unknown fields. Nested messages are read by a function that is passed in, and that
is missing where no further nesting is allowed.
-/

set_option autoImplicit false

namespace ProtoSchema

open Wire

/-- What reading an element gives. -/
inductive Reading where
  | accepted (value : Value)
  /-- The number is none of the closed enum's. -/
  | rejected (number : Int32)

/-- Reads the messages nested in a frame, unless the nesting limit is reached. -/
abbrev NestedReader := Option (MessageMarshaller → Bytes → Logged DecodeError Instance)

def ofWire {α : Type} (result : Except WireError α) : Logged DecodeError α :=
  .ofExcept (result.mapError .wire)

def NestedReader.run (nested : NestedReader) (m : MessageMarshaller) (frame : Bytes) :
    Logged DecodeError Instance :=
  match nested with
  | some read => read m frame
  | none => throw (.wire (.recursionLimit nestingLimit))

/-- The marshaller of a field's message elements. -/
def Registry.elementMarshaller (reg : Registry) (plan : Plan) (target : TypeId) :
    Except DecodeError MessageMarshaller :=
  match reg.messageMarshaller? target with
  | some m => .ok m
  | none => .error (.unknownType plan.targetName)

/-- Judges an enum number: a closed enum accepts only what it declares. -/
def Registry.judgeNumber (reg : Registry) (plan : Plan) (target : TypeId) (isOpen : Bool)
    (number : Int32) : Except DecodeError Reading :=
  if isOpen then .ok (.accepted (.enum number))
  else
    match reg.enumMarshaller? target with
    | none => .error (.unknownType plan.targetName)
    | some e =>
      if e.isKnown number then .ok (.accepted (.enum number)) else .ok (.rejected number)

/-! ## Reading

Both functions need to know of the registry which marshaller a message has and which numbers an enum
declares, and nothing else. -/

/-- Reads one element of a field. A message is looked up after its frame is read and after its
level is opened. -/
def readElement (reg : Registry) (nested : NestedReader) (plan : Plan) (input : Bytes) :
    Logged DecodeError (Reading × Bytes) :=
  match plan.element with
  | .scalar s => do
    let (value, rest) ← ofWire (s.read plan.field.number input)
    return (.accepted value, rest)
  | .enum target isOpen => do
    let (w, rest) ← ofWire (Varint.decode input)
    let reading ← Logged.ofExcept (reg.judgeNumber plan target isOpen w.toUInt32.toInt32)
    return (reading, rest)
  | .message target => do
    let (frame, rest) ← ofWire (readLengthDelimited input)
    if nested.isNone then throw (.wire (.recursionLimit nestingLimit))
    let m ← Logged.ofExcept (reg.elementMarshaller plan target)
    let i ← nested.run m frame
    return (.accepted (.message i), rest)

/-- The element that a map entry without a value holds. A message is what the empty frame gives. -/
def zeroElement (reg : Registry) (nested : NestedReader) (plan : Plan) :
    Logged DecodeError Value :=
  match plan.element with
  | .scalar s => return s.zero
  | .enum _ _ => return .enum 0
  | .message target => do
    let m ← Logged.ofExcept (reg.elementMarshaller plan target)
    return .message (← nested.run m [])

/-- The value that a declared default stands for, if it is of the element's kind. -/
def Element.defaultValue? (e : Element) (d : DefaultValue) : Option Value :=
  match e, d with
  | .enum _ _, .enum _ number => some (.enum number)
  | .scalar s, d =>
    match s.kind, d with
    | .bool, .bool b => some (.bool b)
    | .i32, .int n => some (.i32 n.toInt32)
    | .i64, .int n => some (.i64 n)
    | .u32, .uint n => some (.u32 n.toUInt32)
    | .u64, .uint n => some (.u64 n)
    | .f32, .float x => some (.f32 x.toBinary32)
    | .f64, .float x => some (.f64 x)
    | .string, .string s => some (.string s)
    | .bytes, .bytes b => some (.bytes b)
    | _, _ => none
  | _, _ => none

/-- Reads pieces until the input is used up. A step that consumes nothing is the last one. -/
def readAll {ε α : Type} (step : Bytes → Logged ε (α × Bytes)) (input : Bytes) :
    Logged ε (List α) :=
  if input.isEmpty then return []
  else do
    let (a, rest) ← step input
    if rest.length < input.length then return a :: (← readAll step rest)
    else return [a]
termination_by input.length

end ProtoSchema
