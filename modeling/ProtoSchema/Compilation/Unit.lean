import ProtoSchema.Compilation.Closure

/-!
# Compilation units

A unit asks for a schema file with certain types. Preparing it walks the closure, builds every
generated type and its marshaller, and collects the files that imported types are defined in; the
registry is only looked at. Committing registers the outcome, which is where the registry changes.
-/

set_option autoImplicit false

namespace ProtoSchema

open Text

/-- A request for a schema file. -/
structure CompilationUnit where
  fileName : String
  package : Option String := none
  generator : Option String := none
  requested : List TypeRef := []
  autoExpand : Bool := true
  deriving Repr

/-- A type of a compilation's closure. -/
inductive SchemaEntry where
  | generated (registration : Registration) (owner : TypeRef) (generator : Option String)
  | imported (entry : Entry)

namespace SchemaEntry

def descriptor : SchemaEntry → Descriptor
  | generated registration _ _ => registration.descriptor
  | imported entry => entry.descriptor

def isImported : SchemaEntry → Bool
  | generated .. => false
  | imported _ => true

end SchemaEntry

/-- A prepared file with the types of its closure, generated ones first, and what is to be
registered. -/
structure Prepared where
  file : SchemaFile
  entries : List SchemaEntry
  registrations : List Registration

/-- The first entry with a qualified name. -/
def Prepared.entry? (p : Prepared) (name : String) : Option SchemaEntry :=
  p.entries.find? (·.descriptor.qualifiedName == name)

/-! ## Generating

Every generated type is built with the resolver of the closure and compiled at once, so that a file
is either prepared as a whole or not at all. -/

def compileMarshaller (env : Environment) (info : TypeInfo) :
    Built → Except SchemaError Marshaller
  | .message built => Marshaller.message <$> MessageMarshaller.compile env info built
  | .enum type => .ok (.enum ⟨info.type, info.path, type⟩)

/-- Builds a generated type of the closure. -/
def generate (env : Environment) (resolve : Resolver) (fileName : String) (stamp : Stamp)
    (n : Node) : Logged SchemaError Registration := do
  let some info := n.ref.info? env | throw (.missingTypeInfo (n.ref.path env))
  let built ← build env resolve n.ref
  let marshaller ← Logged.ofExcept (compileMarshaller env info built)
  Logged.note .debug ("generated `" ++ n.qualifiedName ++ "` into `" ++ fileName ++ "`")
  return ⟨built.descriptor, stamp, marshaller, stamp⟩

/-- Builds the generated types of a closure, stamping them by their position. -/
def generateAll (env : Environment) (resolve : Resolver) (fileName : String) (occasion : Nat) :
    (index : Nat) → List Node → Logged SchemaError (List (Node × Registration))
  | _, [] => return []
  | index, n :: rest =>
    match n.decision with
    | .imported _ => generateAll env resolve fileName occasion index rest
    | .generate => do
      let registration ← generate env resolve fileName ⟨occasion, index⟩ n
      return (n, registration) :: (← generateAll env resolve fileName occasion (index + 1) rest)

/-- The entries that a closure imports. -/
def importedEntries (nodes : List Node) : List Entry :=
  nodes.filterMap fun n ↦
    match n.decision with
    | .generate => none
    | .imported entry => some entry

/-- The files to import, each once, in the order in which they are first needed. -/
def importedFiles (fileName : String) (entries : List Entry) : List String :=
  entries.foldl (fun files e ↦
    match e.file with
    | some file => if file != fileName && !files.contains file then files ++ [file] else files
    | none => files) []

/-! ## Preparing and committing -/

namespace CompilationUnit

/-- What the unit's walk depends on. -/
def context (u : CompilationUnit) (env : Environment) (registry : Registry) : WalkContext :=
  ⟨env, registry, u.fileName, u.package, u.autoExpand⟩

/-- Refuses a unit that requests nothing or whose package is no package name. -/
def check (u : CompilationUnit) : Except SchemaError Unit :=
  if u.requested.isEmpty then .error .emptyCompilation
  else
    match u.package with
    | some package =>
      if isPackage package then .ok () else .error (.invalidName u.fileName package)
    | none => .ok ()

/-- Prepares the unit against a registry; `occasion` stamps what is made. -/
def prepare (u : CompilationUnit) (env : Environment) (registry : Registry) (occasion : Nat) :
    Logged CompileError Prepared := do
  Logged.ofExcept (u.check.mapError .schema)
  -- All types are reached before the first is built, so that every reference has a name.
  let nodes ← (u.context env registry).closure u.requested
  let generated ←
    (generateAll env (resolverOf nodes) u.fileName occasion 0 nodes).mapError .schema
  let imported := importedEntries nodes
  return {
    file :=
      { name := u.fileName, package := u.package, generator := u.generator
        imports := importedFiles u.fileName imported
        types := generated.map fun (_, r) ↦ r.descriptor }
    entries :=
      generated.map (fun (n, r) ↦ .generated r n.ref u.generator) ++ imported.map .imported
    registrations := generated.map (·.2) }

end CompilationUnit

/-- Registers a prepared file with its types. -/
def Prepared.commit (p : Prepared) (registry : Registry) : Logged CompileError Registry :=
  (registry.registerSchema p.file p.registrations).mapError .registration

def CompilationUnit.compile (u : CompilationUnit) (env : Environment) (registry : Registry)
    (occasion : Nat) : Logged CompileError (Prepared × Registry) := do
  let prepared ← u.prepare env registry occasion
  return (prepared, ← prepared.commit registry)

end ProtoSchema
