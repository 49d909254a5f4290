import ProtoSchema.Codec.Element

/-!
# Decoding

Decoding reads a message record by record. What a record does to the message does not depend on
the records before it: it sets a single field, lengthens a list or a map, or is retained as it came.
So the records are read into a list of effects first, and only then are the effects applied, in
order, to the slots of the fields. Slots that remain empty are filled from the descriptor, and the
layout builds the instance.
-/

set_option autoImplicit false

namespace ProtoSchema

open Wire

/-! ## Effects of records

A record is read behind its tag, by the plan for the number of the tag. A number that a closed enum
does not declare is no error; it goes with the unknown fields, on its own where the field is packed
and with the whole record elsewhere. -/

/-- What a record brings to a field. -/
inductive Change where
  | set (value : Value)
  | append (values : List Value)
  | insert (key value : Value)

/-- What a change makes of the slot of its field. -/
def Change.on (c : Change) (slot : Option Value) : Option Value :=
  match c with
  | .set v => some v
  | .append vs =>
    match slot with
    | some (.list old) => some (.list (old ++ vs))
    | _ => some (.list vs)
  | .insert k v =>
    match slot with
    | some (.map old) => some (.map (old ++ [(k, v)]))
    | _ => some (.map [(k, v)])

/-- What a record does to a message. -/
structure Effect where
  /-- The position of the plan of the changed field, with the change. -/
  change : Option (Nat × Change) := none
  /-- The bytes that join the unknown fields. -/
  retained : Bytes := []

/-- The bytes between the start of a record and what follows it. -/
def consumed (input rest : Bytes) : Bytes := input.take (input.length - rest.length)

inductive EntryPiece where
  | key (key : Value)
  | value (value : Value)
  | rejected
  | other

/-- Reads a piece of a map entry. Behind a rejected value nothing is looked at any more. -/
def readEntryPiece (reg : Registry) (nested : NestedReader) (plan : Plan) (keyType : Scalar)
    (input : Bytes) : Logged DecodeError (EntryPiece × Bytes) := do
  let (tag, afterTag) ← ofWire (Tag.decode input)
  if tag.number = 1 then
    ofWire (tag.expect keyType.wireType)
    let (k, rest) ← ofWire (keyType.read plan.field.number afterTag)
    return (.key k, rest)
  else if tag.number = 2 then
    ofWire (tag.expect plan.element.wireType)
    match ← readElement reg nested plan afterTag with
    | (.accepted v, rest) => return (.value v, rest)
    | (.rejected _, _) => return (.rejected, [])
  else
    let (_, rest) ← ofWire (Payload.decode tag.wireType afterTag)
    return (.other, rest)

def lastKey? (pieces : List EntryPiece) : Option Value :=
  pieces.reverse.findSome? fun
    | .key k => some k
    | _ => none

/-- The value that counts: the last one. -/
def lastValue? (pieces : List EntryPiece) : Option Value :=
  pieces.reverse.findSome? fun
    | .value v => some v
    | _ => none

def EntryPiece.isRejected : EntryPiece → Bool
  | rejected => true
  | _ => false

/-- Reads a map entry; there is none if its value is rejected. A missing half is zero. -/
def readEntry (reg : Registry) (nested : NestedReader) (plan : Plan) (keyType : Scalar)
    (frame : Bytes) : Logged DecodeError (Option (Value × Value)) := do
  let pieces ← readAll (readEntryPiece reg nested plan keyType) frame
  if pieces.any EntryPiece.isRejected then return none
  let key := (lastKey? pieces).getD keyType.zero
  match lastValue? pieces with
  | some value => return some (key, value)
  | none => return some (key, ← zeroElement reg nested plan)

def acceptedValues (readings : List Reading) : List Value :=
  readings.filterMap fun
    | .accepted v => some v
    | .rejected _ => none

/-- The varint records that keep the rejected numbers of a packed run. -/
def rejectedRecords (number : Nat) (readings : List Reading) : Bytes :=
  readings.flatMap fun
    | .accepted _ => []
    | .rejected n => UnknownFields.varintRecord number n.toInt64.toUInt64

namespace MessageMarshaller

/-- The plan for a field number, with its position. -/
def plan? (m : MessageMarshaller) (number : Nat) : Option (Nat × Plan) :=
  (m.planIndex? number).bind fun index ↦ m.plans[index]?.map (index, ·)

/-- Reads a record of a map field behind its tag. -/
def readMapRecord (m : MessageMarshaller) (reg : Registry) (nested : NestedReader) (index : Nat)
    (plan : Plan) (tag : Tag) (input afterTag : Bytes) :
    Logged DecodeError (Effect × Bytes) := do
  ofWire (tag.expect .lengthDelimited)
  let (frame, rest) ← ofWire (readLengthDelimited afterTag)
  match ← readEntry reg nested plan (plan.field.mapKey.getD .string) frame with
  | some (key, value) => return ({ change := some (index, .insert key value) }, rest)
  | none =>
    Logged.note .warn (s!"`{m.path}`: map entry of `{plan.field.name}` with an unknown enum value"
      ++ " moved to unknown fields")
    return ({ retained := consumed input rest }, rest)

/-- Reads a record of a repeated field behind its tag, packed or not, however the field is
declared. -/
def readListRecord (reg : Registry) (nested : NestedReader) (index : Nat) (plan : Plan)
    (tag : Tag) (input afterTag : Bytes) : Logged DecodeError (Effect × Bytes) := do
  -- A packed run: elements of such a type never come behind a length of their own.
  if tag.wireType = .lengthDelimited ∧ plan.element.wireType ≠ .lengthDelimited then
    let (frame, rest) ← ofWire (readLengthDelimited afterTag)
    let readings ← readAll (readElement reg nested plan) frame
    return (⟨some (index, .append (acceptedValues readings)),
      rejectedRecords plan.field.number readings⟩, rest)
  else
    ofWire (tag.expect plan.element.wireType)
    match ← readElement reg nested plan afterTag with
    | (.accepted v, rest) => return ({ change := some (index, .append [v]) }, rest)
    | (.rejected _, rest) => return ({ retained := consumed input rest }, rest)

/-- Reads a record of a single field behind its tag. -/
def readSingleRecord (m : MessageMarshaller) (reg : Registry) (nested : NestedReader)
    (index : Nat) (plan : Plan) (tag : Tag) (input afterTag : Bytes) :
    Logged DecodeError (Effect × Bytes) := do
  ofWire (tag.expect plan.element.wireType)
  match ← readElement reg nested plan afterTag with
  | (.accepted v, rest) => return ({ change := some (index, .set v) }, rest)
  | (.rejected n, rest) =>
    Logged.note .warn (s!"`{m.path}`: unknown value {n.toInt} of `{plan.field.name}`"
      ++ " moved to unknown fields")
    return ({ retained := consumed input rest }, rest)

def readRecord (m : MessageMarshaller) (reg : Registry) (nested : NestedReader)
    (input : Bytes) : Logged DecodeError (Effect × Bytes) := do
  let (tag, afterTag) ← ofWire (Tag.decode input)
  match m.plan? tag.number with
  | none =>
    let (_, rest) ← ofWire (Payload.decode tag.wireType afterTag)
    Logged.note .trace s!"`{m.path}` keeps unknown field {tag.number}"
    return ({ retained := consumed input rest }, rest)
  | some (index, plan) =>
    match plan.field.cardinality with
    | .map => m.readMapRecord reg nested index plan tag input afterTag
    | .repeated => readListRecord reg nested index plan tag input afterTag
    | .required | .optional => m.readSingleRecord reg nested index plan tag input afterTag

end MessageMarshaller

/-! ## Applying effects

Effects are applied from the first to the last. Members of a oneof are told by its name, so setting
one of them unsets all others. -/

/-- A message under construction. -/
structure Draft where
  /-- What each field holds so far, in the order of the plans. -/
  slots : List (Option Value)
  unknown : UnknownFields

namespace Draft

def empty (m : MessageMarshaller) : Draft := ⟨m.plans.map fun _ ↦ none, .empty⟩

/-- Whether two fields belong to one oneof. -/
def exclude (m : MessageMarshaller) (i j : Nat) : Bool :=
  match m.plans[i]?.bind (·.field.oneof), m.plans[j]?.bind (·.field.oneof) with
  | some g, some h => g == h
  | _, _ => false

/-- Changes a field. Setting a member of a oneof unsets the others. -/
def change (m : MessageMarshaller) (slots : List (Option Value)) (index : Nat) :
    Change → List (Option Value)
  | .set v =>
    -- The field itself is unset as well when it is in a oneof, and set again at once.
    (slots.mapIdx fun j slot ↦ if exclude m index j then none else slot).set index (some v)
  | .append vs =>
    slots.modify index fun
      | some (.list old) => some (.list (old ++ vs))
      | _ => some (.list vs)
  | .insert k v =>
    slots.modify index fun
      | some (.map old) => some (.map (old ++ [(k, v)]))
      | _ => some (.map [(k, v)])

def apply (m : MessageMarshaller) (d : Draft) (e : Effect) : Draft :=
  { slots :=
      match e.change with
      | some (index, c) => change m d.slots index c
      | none => d.slots
    unknown := d.unknown.push e.retained }

end Draft

namespace MessageMarshaller

/-- What a field without a slot value holds. -/
def fill (m : MessageMarshaller) (plan : Plan) (slot : Option Value) :
    Except DecodeError (Option Value) :=
  match slot with
  | some v => .ok (some v)
  | none =>
    match plan.field.cardinality with
    | .repeated => .ok (some (.list []))
    | .map => .ok (some (.map []))
    | .required => .error (.required m.descriptor.qualifiedName plan.field.name)
    | .optional => .ok (plan.field.default.bind plan.element.defaultValue?)

/-- The value at a path, by the last plan that leads there. -/
def valueAt (filled : List (Plan × Option Value)) (path : List Nat) : Option Value :=
  (filled.reverse.find? fun (plan, _) ↦ plan.path == path).bind (·.2)

/-- Fills the empty slots and builds the instance. -/
def finish (m : MessageMarshaller) (d : Draft) : Logged DecodeError Instance := do
  let values ← Logged.ofExcept
    ((m.plans.zip d.slots).mapM fun (plan, slot) ↦ m.fill plan slot)
  if !d.unknown.isEmpty && m.layout.unknown.isNone then
    Logged.note .warn (s!"`{m.path}` cannot hold unknown fields, "
      ++ s!"dropping {d.unknown.bytes.length} bytes")
  Logged.ofExcept
    ((m.layout.assemble (valueAt (m.plans.zip values)) [] d.unknown).mapError .factory)

/-- Reads a message with the given reader for nested messages. -/
def decodeWith (m : MessageMarshaller) (reg : Registry) (nested : NestedReader)
    (input : Bytes) : Logged DecodeError Instance := do
  let effects ← readAll (m.readRecord reg nested) input
  m.finish (effects.foldl (Draft.apply m) (.empty m))

end MessageMarshaller

/-- Reads a message below which `levels` more levels may nest. -/
def Registry.decodeAt (reg : Registry) :
    (levels : Nat) → MessageMarshaller → Bytes → Logged DecodeError Instance
  | 0, m, input => m.decodeWith reg none input
  | levels + 1, m, input => m.decodeWith reg (some (reg.decodeAt levels)) input

namespace Registry

/-- Reads a message with a reader at some depth. -/
def readWith (reg : Registry) (m : MessageMarshaller) (r : Reader) :
    Logged DecodeError Instance :=
  reg.decodeAt r.levelsLeft m r.unread

/-- Reads a top-level message of a native type. -/
def decode (reg : Registry) (type : TypeId) (input : Bytes) : Logged DecodeError Instance := do
  match reg.messageMarshaller? type with
  | none => throw (.unknownType type.name)
  | some m =>
    let i ← reg.readWith m ⟨input, 0⟩
    -- A factory may build an instance of another type.
    if i.type = type then return i else throw (.typeMismatch type.name)

/-- Reads a top-level message by its qualified name. -/
def decodeNamed (reg : Registry) (name : String) (input : Bytes) :
    Logged DecodeError Instance := do
  match (reg.named? name).bind (·.marshaller.message?) with
  | none => throw (.unknownType name)
  | some m => reg.readWith m ⟨input, 0⟩

end Registry

end ProtoSchema
