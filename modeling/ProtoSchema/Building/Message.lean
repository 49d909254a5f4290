import ProtoSchema.Building.Field
import ProtoSchema.Types.Inlining

/-!
# Checked messages

The members of a message, inlined supertypes included, become its fields in declaration order. The
fields of a oneof must all be declared by one type; numbers and names must be distinct, and no
field may bear the name of a oneof.
-/

set_option autoImplicit false

namespace ProtoSchema

/-- A message descriptor with the bindings of its fields, in the same order. -/
structure BuiltMessage where
  descriptor : MessageType
  bindings : List Binding
  deriving Repr

/-- A field with its binding and the type that declares it. -/
structure DeclaredField where
  owner : TypeId
  field : Field
  binding : Binding
  deriving Repr

/-! ## Checks across fields

Fields are checked one by one in the order of the leaves, and after that against one another. A
oneof belongs to the type that declares its first member, and must not go on in another one. -/

/-- Checks the leaves of a message one after the other, where `groups` holds the type that declares
each oneof met so far. -/
def checkLeaves (env : Environment) (resolve : Resolver) (typePath : String) :
    (groups : List (String × TypeId)) → List Leaf → Except SchemaError (List DeclaredField)
  | _, [] => .ok []
  | _, .invalid m :: _ => .error (.invalidFlatten typePath m.name)
  | _, .cycle m :: _ => .error (.flattenCycle typePath m.name)
  | groups, .field path owner m :: rest => do
    let (field, binding) ← m.toField env resolve typePath path
    let declared : DeclaredField := ⟨owner, field, binding⟩
    match field.oneof with
    | none => return declared :: (← checkLeaves env resolve typePath groups rest)
    | some group =>
      -- A oneof belongs to the first type that declares a member of it.
      match groups.lookup group with
      | none =>
        return declared :: (← checkLeaves env resolve typePath ((group, owner) :: groups) rest)
      | some first =>
        if first = owner then
          return declared :: (← checkLeaves env resolve typePath groups rest)
        else
          throw (.conflictingOneof typePath field.name group
            s!"oneof `{group}` of a flattened supertype")

/-- Refuses a field whose number or name an earlier field bears already. -/
def checkDistinct (typePath : String) :
    (earlier : List Field) → List Field → Except SchemaError Unit
  | _, [] => .ok ()
  | earlier, f :: rest =>
    match earlier.find? (·.number == f.number) with
    | some first => .error (.duplicateFieldNumber typePath f.number first.name f.name)
    | none =>
      if earlier.any (·.name == f.name) then .error (.duplicateFieldName typePath f.name)
      else checkDistinct typePath (f :: earlier) rest

/-- Refuses a oneof that shares its name with a field. -/
def checkGroupNames (typePath : String) (fields : List Field) :
    List Field → Except SchemaError Unit
  | [] => .ok ()
  | f :: rest =>
    match f.oneof with
    | none => checkGroupNames typePath fields rest
    | some group =>
      if fields.any (·.name == group) then
        .error (.conflictingOneof typePath f.name group s!"field `{group}`")
      else checkGroupNames typePath fields rest

/-- The names of the oneofs, each where its first member stands. -/
def groupNames : List Field → List String
  | [] => []
  | f :: rest =>
    match f.oneof with
    | none => groupNames rest
    | some group => group :: (groupNames rest).filter (· != group)

/-- The oneofs of a list of fields. -/
def groupFields (fields : List Field) : List Oneof :=
  (groupNames fields).map fun group ↦
    ⟨group, (fields.filter (·.oneof == some group)).map (·.number)⟩

/-- Refuses a factory parameter that no member bears. -/
def checkParams (typePath : String) (message : MessageInfo) : Except SchemaError Unit :=
  match (message.factoryParams.getD []).find? fun p ↦ !message.members.any (·.name == p) with
  | some param => .error (.unknownFactoryParam typePath param)
  | none => .ok ()

def buildMessage (env : Environment) (resolve : Resolver) (info : TypeInfo)
    (message : MessageInfo) (qualifiedName : String) : Except SchemaError BuiltMessage := do
  checkParams info.path message
  let declared ← checkLeaves env resolve info.path [] (info.leaves env message)
  let fields := declared.map (·.field)
  checkDistinct info.path [] fields
  checkGroupNames info.path fields fields
  return {
    descriptor :=
      { name := info.typeName, qualifiedName, fields, oneofs := groupFields fields
        docs := info.docs }
    bindings := declared.map (·.binding) }

end ProtoSchema
