import ProtoSchema.Types.Environment

/-!
# Inlined supertypes

A flattened member stands for the members of its supertype, which may flatten further. This module
follows flattened members once and for all, into a tree whose leaves are fields or dead ends: a
supertype that is not a described message, or one that is already being inlined. The leaves, each
with the path of member positions that leads to it, are what the checks, the walk over references
and the marshallers all work on.

A type is inlined at most once along a path, so a path is never longer than the number of described
types; that number bounds the recursion.
-/

set_option autoImplicit false

namespace ProtoSchema

/-- A member after its supertypes are followed. -/
inductive Inlined where
  /-- A field of the type `owner`. -/
  | field (owner : TypeId) (member : Member)
  | parent (member : Member) (info : TypeInfo) (message : MessageInfo) (members : List Inlined)
  /-- The supertype is not a described message. -/
  | invalid (member : Member)
  /-- The supertype is being inlined already. -/
  | cycle (member : Member)

/-- Follows the members of a type, where `visiting` holds the types being inlined. -/
def inlineMembers (env : Environment) :
    (fuel : Nat) → (visiting : List TypeId) → (owner : TypeId) → List Member → List Inlined
  | fuel, visiting, owner, members =>
    members.map fun member ↦
      match member.kind with
      | .field _ => .field owner member
      | .flatten ref =>
        match ref.info? env with
        | none => .invalid member
        | some info =>
          match info.message? with
          | none => .invalid member
          | some message =>
            if visiting.contains ref.type then .cycle member
            else
              match fuel with
              | 0 => .cycle member
              | fuel + 1 =>
                .parent member info message
                  (inlineMembers env fuel (ref.type :: visiting) info.type message.members)

/-- Follows the members of a message. -/
def TypeInfo.inline (env : Environment) (info : TypeInfo) (message : MessageInfo) : List Inlined :=
  inlineMembers env (env.length + builtinAdapters.length) [info.type] info.type message.members

/-! ## Leaves

A field is a leaf, and so is a dead end, so that whoever works on the leaves finds out about both in
declaration order. -/

/-- What a path of member positions leads to. -/
inductive Leaf where
  | field (path : List Nat) (owner : TypeId) (member : Member)
  | invalid (member : Member)
  | cycle (member : Member)

mutual

/-- The leaves below a member that stands at `path`. -/
def Inlined.leaves (path : List Nat) : Inlined → List Leaf
  | .field owner member => [.field path owner member]
  | .parent _ _ _ members => Inlined.leavesFrom path 0 members
  | .invalid member => [.invalid member]
  | .cycle member => [.cycle member]

/-- The leaves below members of which the first stands at position `index` behind `path`. -/
def Inlined.leavesFrom (path : List Nat) (index : Nat) : List Inlined → List Leaf
  | [] => []
  | m :: rest =>
    Inlined.leaves (path ++ [index]) m ++ Inlined.leavesFrom path (index + 1) rest

end

/-- The fields and dead ends of a message, in declaration order. -/
def TypeInfo.leaves (env : Environment) (info : TypeInfo) (message : MessageInfo) : List Leaf :=
  Inlined.leavesFrom [] 0 (info.inline env message)

/-- The types that a leaf refers to. -/
def Leaf.references : Leaf → List TypeRef
  | field _ _ member => member.type.references
  | _ => []

/-- The types that the fields of a type refer to, inlined fields included. -/
def TypeInfo.references (env : Environment) (info : TypeInfo) : List TypeRef :=
  match info.message? with
  | some message => (info.leaves env message).flatMap Leaf.references
  | none => []

end ProtoSchema
