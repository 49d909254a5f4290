import ProtoSchema.Codec.Decode
import Std.Data.HashMap

/-!
# Tables of a marshaller

Plans and layout say what a marshaller does. When it runs, it goes by tables of positions: the slot
of each field of the layout is bound to the position of a plan, field numbers lead to positions, and
each oneof has a list of them. The tables are filled one plan after the other.

What is looked up in a table is taken for granted, so nothing here mends a table that is wrong. A
slot that stays unbound loses its value without a complaint, and a position that is out of range is
the end of the program, which is an outcome of its own (`none`).
-/

set_option autoImplicit false

namespace ProtoSchema

open Wire

/-! ## Slots of members -/

/-- What a layout keeps for a member besides its getter: for a field the position of the plan that
it is bound to, if any, and for a flattened member the slots of the supertype. -/
inductive MemberSlot where
  | field (plan : Option Nat)
  | flatten (slots : List MemberSlot)

namespace MemberSlot

/-- What the slot at a path is bound to, if the path leads to the slot of a field. -/
def at? : List MemberSlot → List Nat → Option (Option Nat)
  | _, [] => none
  | slots, index :: rest =>
    match slots[index]? with
    | some (.field plan) => if rest.isEmpty then some plan else none
    | some (.flatten inner) => at? inner rest
    | none => none

/-- Binds the slot at a path, if the path leads to the slot of a field. -/
def bind? (plan : Nat) : List MemberSlot → List Nat → Option (List MemberSlot)
  | _, [] => none
  | slots, index :: rest =>
    match slots[index]? with
    | some (.field _) => if rest.isEmpty then some (slots.set index (.field (some plan))) else none
    | some (.flatten inner) =>
      (bind? plan inner rest).map fun inner ↦ slots.set index (.flatten inner)
    | none => none

end MemberSlot

namespace Layout

mutual

/-- The slots of a layout, where `bound` tells what they are bound to. -/
def memberSlots (bound : List Nat → Option Nat) : Layout → List MemberSlot
  | mk _ _ _ _ parts => slotsFrom bound 0 parts

/-- The slots of members of which the first stands at position `index`. -/
def slotsFrom (bound : List Nat → Option Nat) (index : Nat) : List Part → List MemberSlot
  | [] => []
  | .field _ :: rest => .field (bound [index]) :: slotsFrom bound (index + 1) rest
  | .flatten _ parent :: rest =>
    .flatten (parent.memberSlots fun path ↦ bound (index :: path)) ::
      slotsFrom bound (index + 1) rest

end

end Layout

/-! ## Tables -/

/-- What a marshaller goes by when it runs. -/
structure Tables where
  /-- The slots of the layout. -/
  slots : List MemberSlot
  /-- The position of the plan for a field number. -/
  byNumber : Std.HashMap Nat Nat
  /-- The positions of the plans of each oneof. -/
  oneofMembers : List (List Nat)

namespace MessageMarshaller

/-- The tables after all plans were entered, one after the other; there are none if a plan leads to
no slot of a field. -/
def tables? (m : MessageMarshaller) : Option Tables := do
  let slots ← m.plans.zipIdx.foldlM (fun slots e ↦ MemberSlot.bind? e.2 slots e.1.path)
    (m.layout.memberSlots fun _ ↦ none)
  let byNumber := m.plans.zipIdx.foldl (fun table e ↦ table.insert e.1.field.number e.2) ∅
  return ⟨slots, byNumber, m.descriptor.oneofs.map fun o ↦ o.numbers.filterMap (byNumber[·]?)⟩

/-- The position of a plan's oneof among those of the descriptor. -/
def oneofIndex? (m : MessageMarshaller) (p : Plan) : Option Nat :=
  p.field.oneof.bind fun g ↦ m.descriptor.oneofs.findIdx? (·.name == g)

end MessageMarshaller

/-! ## Changing the slots of a message -/

/-- The values that are left when those at some positions are gone. -/
def unset (ks : List Nat) (values : List (Option Value)) : List (Option Value) :=
  ks.foldl (fun values k ↦ values.set k none) values

/-- Puts a value at a position, if there is one. -/
def setAt? (values : List (Option Value)) (k : Nat) (v : Option Value) :
    Option (List (Option Value)) :=
  if k < values.length then some (values.set k v) else none

namespace Tables

/-- The positions that a change of a field unsets: if the field is set, those of the members of its
oneof, the field among them. -/
def unsets? (t : Tables) (m : MessageMarshaller) (p : Plan) : Change → Option (List Nat)
  | .set _ =>
    match m.oneofIndex? p with
    | some i => t.oneofMembers[i]?
    | none => some []
  | _ => some []

/-- Changes a field. There is no outcome if a position is out of range. -/
def change? (t : Tables) (m : MessageMarshaller) (slots : List (Option Value)) (index : Nat)
    (c : Change) : Option (List (Option Value)) := do
  let p ← m.plans[index]?
  let ks ← t.unsets? m p c
  let slots ← ks.foldlM (fun slots k ↦ setAt? slots k none) slots
  let slot ← slots[index]?
  setAt? slots index (c.on slot)

def step? (t : Tables) (m : MessageMarshaller) (d : Draft) (e : Effect) : Option Draft := do
  let slots ← match e.change with
    | some (index, c) => t.change? m d.slots index c
    | none => some d.slots
  return ⟨slots, d.unknown.push e.retained⟩

end Tables

/-! ## Building instances -/

namespace Layout

mutual

/-- Builds an instance by the slots of the layout, and tells what is left of the values: what a slot
takes is gone. -/
def assembleBy (unknown : UnknownFields) :
    Layout → List MemberSlot → List (Option Value) →
      Except FactoryError (Instance × List (Option Value))
  | mk typePath names factory _ parts, slots, values => do
    let (taken, left) ← takeParts parts slots values
    return (← factory ⟨typePath, names, taken, unknown⟩, left)

/-- The values that members take out of a list, and what is left of it. -/
def takeParts : List Part → List MemberSlot → List (Option Value) →
    Except FactoryError (List (Option Value) × List (Option Value))
  | .field _ :: parts, .field plan :: slots, values => do
    let value := plan.bind fun k ↦ values[k]?.join
    let (taken, left) ← takeParts parts slots (unset plan.toList values)
    return (value :: taken, left)
  | .flatten _ parent :: parts, .flatten inner :: slots, values => do
    -- Unknown fields belong to the message that is read, not to what it inlines.
    let (i, left) ← assembleBy .empty parent inner values
    let (taken, left) ← takeParts parts slots left
    return (some (.message i) :: taken, left)
  | _, _, values => .ok ([], values)

end

end Layout

/-- Reads a message by tables, and tells which values are left. There is no outcome if a position is
out of range. -/
def Tables.decode? (t : Tables) (m : MessageMarshaller) (reg : Registry) (nested : NestedReader)
    (input : Bytes) : Option (Except DecodeError (Instance × List (Option Value))) :=
  match (readAll (m.readRecord reg nested) input).result with
  | .error e => some (.error e)
  | .ok effects =>
    (effects.foldlM (t.step? m) (.empty m)).map fun d ↦ do
      let values ← (m.plans.zip d.slots).mapM fun e ↦ m.fill e.1 e.2
      (m.layout.assembleBy d.unknown t.slots values).mapError .factory

end ProtoSchema
