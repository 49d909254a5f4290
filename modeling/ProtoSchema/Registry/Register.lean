import ProtoSchema.Log
import ProtoSchema.Registry.Basic

/-!
# Registration

A registration is new, or repeats what is bound already and then changes nothing, or is refused:
when its type is bound to another descriptor, or its name to another type. A whole file is
registered at once: every registration of it is looked at before the first is bound, so a refusal
leaves the registry as it was.
-/

set_option autoImplicit false

namespace ProtoSchema

inductive RegistrationError where
  | typeConflict (typePath name : String)
  | nameConflict (name existing : String)
  | fileConflict (file : String)
  deriving DecidableEq, Repr

def RegistrationError.message : RegistrationError → String
  | typeConflict typePath name =>
    s!"`{typePath}` is already registered with a different descriptor for `{name}`"
  | nameConflict name existing => s!"schema name `{name}` is already bound to `{existing}`"
  | fileConflict file => s!"file `{file}` is already registered with different content"

namespace Registry

/-- Whether a registration is new; it is not when its type is bound to an equal descriptor. -/
def isNew (r : Registry) (reg : Registration) : Except RegistrationError Bool :=
  match r.get? reg.type with
  | some existing =>
    -- The marshaller does not count: the one that is bound stays.
    if existing.descriptor == reg.descriptor then .ok false
    else .error (.typeConflict reg.marshaller.path existing.name)
  | none =>
    match r.named? reg.name with
    | some other => .error (.nameConflict reg.name other.marshaller.path)
    | none => .ok true

/-- Replaces the value bound to a key, or binds it behind the others. -/
def bindName (name : String) (type : TypeId) : List (String × TypeId) → List (String × TypeId)
  | [] => [(name, type)]
  | (name', type') :: rest =>
    if name' = name then (name, type) :: rest else (name', type') :: bindName name type rest

def insert (r : Registry) (reg : Registration) (file : Option String) : Registry :=
  { r with
    entries := r.entries.insert reg.type { reg with file }
    names := bindName reg.name reg.type r.names }

def noteInsert {ε : Type} (reg : Registration) : Logged ε Unit :=
  .note .debug ("registered `" ++ reg.name ++ "` for `" ++ reg.marshaller.path ++ "`")

/-- Registers a descriptor with a marshaller outside any file. -/
def register (r : Registry) (reg : Registration) : Logged RegistrationError Registry := do
  if ← Logged.ofExcept (r.isNew reg) then
    noteInsert reg
    return r.insert reg none
  else return r

/-! ## Files

A file is compared with the one of its name first, then all of its registrations are looked at, and
only then is anything bound. -/

/-- Looks at the registrations of a file one after the other, where `claimed` holds the names that
earlier ones bear, and says which are new. -/
def checkAll (r : Registry) :
    (claimed : List (String × TypeId)) → List Registration → Except RegistrationError (List Bool)
  | _, [] => .ok []
  | claimed, reg :: rest => do
    let clash :=
      match claimed.lookup reg.name with
      | some other => decide (other ≠ reg.type)
      | none => false
    if clash then throw (.nameConflict reg.name reg.marshaller.path)
    -- Claims within the file come before claims of the registry.
    let fresh ← r.isNew reg
    return fresh :: (← checkAll r ((reg.name, reg.type) :: claimed) rest)

def insertAll (file : String) :
    Registry → List (Registration × Bool) → Logged RegistrationError Registry
  | r, [] => pure r
  | r, (reg, fresh) :: rest =>
    if fresh then do
      noteInsert reg
      insertAll file (r.insert reg (some file)) rest
    else insertAll file r rest

/-- Registers a file with its types, all or none of them. -/
def registerSchema (r : Registry) (file : SchemaFile) (regs : List Registration) :
    Logged RegistrationError Registry := do
  let known ←
    match r.file? file.name with
    | some existing =>
      if existing == file then pure true else throw (.fileConflict file.name)
    | none => pure false
  let fresh ← Logged.ofExcept (r.checkAll [] regs)
  let r ← insertAll file.name r (regs.zip fresh)
  return if known then r else { r with files := r.files ++ [file] }

end Registry

end ProtoSchema
