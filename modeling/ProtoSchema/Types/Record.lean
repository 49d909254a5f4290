import ProtoSchema.Types.Environment

/-!
# Records with typed members

A record type declared by the native types of its members describes itself: its getters hand out
the members, and its factory takes each member at its native type. Members of foreign types, which
only an adapter knows, are held bare, optionally or in a list. A record may keep unknown fields.
-/

set_option autoImplicit false

namespace ProtoSchema

open Wire FieldValues

inductive Storage where
  | native (type : NativeType)
  | flatten (parent : TypeId)
  | foreign (type : TypeId)
  | foreignOptional (type : TypeId)
  | foreignList (type : TypeId)
  deriving Repr

namespace Storage

def kind : Storage → MemberKind
  | native t => .field t.fieldType
  | flatten parent => .flatten (.of parent)
  | foreign type => .field (.message (.foreign type))
  | foreignOptional type => .field (.optional (.message (.foreign type)))
  | foreignList type => .field (.repeated (.message (.foreign type)))

/-- Takes a member at its type. -/
def take (index : Nat) : Storage → Take Value
  | native t => t.toValue <$> FieldValues.take t index
  | flatten parent =>
    (NativeType.message parent).toValue <$> FieldValues.take (.message parent) index
  | foreign type => Value.message <$> takeForeign type index
  | foreignOptional type => do
    match ← takeForeignOptional type index with
    | some i => return .message i
    | none => return .absent
  | foreignList type => do return .list ((← takeForeignList type index).map .message)

end Storage

/-- A member of a record: its name, how it is held, and what else is declared about it. -/
structure RecordMember where
  name : String
  storage : Storage
  declare : Member → Member := id

structure RecordType where
  type : TypeId
  members : List RecordMember
  keepsUnknown : Bool := false

namespace RecordType

/-- Takes all members in order, the first of them from slot `index`. -/
def takeAll : (index : Nat) → List RecordMember → Take (List (Option Value))
  | _, [] => return []
  | index, m :: rest => do return some (← m.storage.take index) :: (← takeAll (index + 1) rest)

def factory (r : RecordType) : Factory := fun values ↦
  let build : Take Instance := do
    let members ← takeAll 0 r.members
    let unknown ← if r.keepsUnknown then takeUnknown else pure .empty
    return .record r.type members [] unknown
  build.run' values

def info (r : RecordType) : MessageInfo where
  members := r.members.mapIdx fun index m ↦
    m.declare { name := m.name, kind := m.storage.kind, getter := .member r.type index }
  factory := r.factory
  unknown := if r.keepsUnknown then some (unknownOfRecord r.type) else none

end RecordType

end ProtoSchema
