import ProtoSchema.Compilation.Error

/-!
# Closures

The closure of a compilation holds the requested types and every type that a generated one refers
to, each once, in the order in which they are reached, breadth first. A type that is registered
already is imported and not followed, unless it was registered by the same file: then it is
generated again. Every other type needs a description, its own or a built-in adapter's.

Only described types are ever followed and each only once, so their number bounds the walk.
-/

set_option autoImplicit false

namespace ProtoSchema

open Text

/-- What a compilation does about a type. -/
inductive Decision where
  | generate
  | imported (entry : Entry)

/-- A reached type with the name that it has in the compilation. -/
structure Node where
  ref : TypeRef
  qualifiedName : String
  sort : TypeSort
  decision : Decision

def Node.path (env : Environment) (n : Node) : String :=
  match n.decision with
  | .generate => n.ref.path env
  | .imported entry => entry.marshaller.path

/-- What a walk depends on. -/
structure WalkContext where
  env : Environment
  registry : Registry
  fileName : String
  package : Option String
  /-- Whether unrequested types are generated. -/
  autoExpand : Bool

/-- The types reached so far, and the generated ones among them whose references are still to be
followed. -/
structure Walk where
  nodes : List Node := []
  pending : List TypeInfo := []

/-! ## Steps of a walk

A type is added behind those that were reached before it, which makes the order breadth first. What
a generated type refers to is only looked at in a later round. -/

namespace Walk

def reaches (w : Walk) (type : TypeId) : Bool := w.nodes.any fun n ↦ decide (n.ref.type = type)

end Walk

/-- The reference to follow: as given if it carries a description, else through the adapter. -/
def withAdapter (env : Environment) (ref : TypeRef) : Except ImportError (TypeRef × TypeInfo) :=
  match ref.info? env with
  | some info => .ok (ref, info)
  | none =>
    match builtinAdapter? ref.type with
    | some info => .ok (⟨ref.type, .builtin⟩, info)
    | none => .error (.noAdapter (ref.path env))

namespace WalkContext

/-- The entry to import for a type, if another file or no file registered it. -/
def importable? (c : WalkContext) (type : TypeId) : Option Entry :=
  (c.registry.get? type).filter fun e ↦ e.file != some c.fileName

def addImport (c : WalkContext) (w : Walk) (ref : TypeRef) (entry : Entry) :
    Logged CompileError Walk := do
  Logged.note .debug ("importing `" ++ entry.name ++ "` for `" ++ ref.path c.env ++ "`")
  return { w with nodes := w.nodes ++ [⟨ref, entry.name, entry.descriptor.sort, .imported entry⟩] }

def addGenerated (c : WalkContext) (w : Walk) (ref : TypeRef) (info : TypeInfo) : Walk :=
  let sort :=
    match info.kind with
    | .message _ => TypeSort.message
    | .enum _ => TypeSort.enum
  { nodes := w.nodes ++ [⟨ref, qualify c.package info.typeName, sort, .generate⟩]
    pending := w.pending ++ [info] }

/-- Reaches a requested type. -/
def request (c : WalkContext) (w : Walk) (ref : TypeRef) : Logged CompileError Walk := do
  if w.reaches ref.type then return w
  else
    match c.importable? ref.type with
    | some entry => c.addImport w ref entry
    | none =>
      let (ref, info) ← Logged.ofExcept ((withAdapter c.env ref).mapError .reference)
      return c.addGenerated w ref info

/-- Reaches a type that a generated one refers to. -/
def reach (c : WalkContext) (referrer : String) (w : Walk) (ref : TypeRef) :
    Logged CompileError Walk := do
  if w.reaches ref.type then return w
  else
    match c.importable? ref.type with
    | some entry => c.addImport w ref entry
    | none =>
      if !c.autoExpand then throw (.reference (.unresolved referrer (ref.path c.env)))
      let (ref, info) ← Logged.ofExcept ((withAdapter c.env ref).mapError .reference)
      Logged.note .debug ("`" ++ referrer ++ "` pulls `" ++ ref.path c.env
        ++ "` into the compilation")
      return c.addGenerated w ref info

/-! ## The walk

Names are checked when all types are there, so a reference that leads nowhere is reported before a
name that is claimed twice. -/

/-- Follows the references of pending types, at most `fuel` of them. -/
def follow (c : WalkContext) : (fuel : Nat) → Walk → Logged CompileError Walk
  | 0, w => return w
  | fuel + 1, w =>
    match w.pending with
    | [] => return w
    | info :: pending => do
      -- What is reached from here waits behind everything that is pending already.
      let w ← (info.references c.env).foldlM (c.reach info.path) { w with pending }
      c.follow fuel w

/-- A bound for the number of types that a walk follows. -/
def maxFollowed (c : WalkContext) : Nat := c.env.length + builtinAdapters.length

/-- Refuses names that two reached types claim, or that a generated type would take from a
registered one. -/
def checkNames (c : WalkContext) : (earlier : List Node) → List Node → Except SchemaError Unit
  | _, [] => .ok ()
  | earlier, n :: rest =>
    match earlier.find? (·.qualifiedName == n.qualifiedName) with
    | some first =>
      .error (.duplicateTypeName n.qualifiedName (first.path c.env) (n.path c.env))
    | none =>
      match n.decision, c.registry.named? n.qualifiedName with
      -- An imported type bears the name that the registry has for it.
      | .generate, some existing =>
        if existing.type = n.ref.type then c.checkNames (n :: earlier) rest
        else
          .error (.duplicateTypeName n.qualifiedName existing.marshaller.path (n.path c.env))
      | _, _ => c.checkNames (n :: earlier) rest

def closure (c : WalkContext) (requested : List TypeRef) : Logged CompileError (List Node) := do
  let w ← requested.foldlM c.request {}
  let w ← c.follow c.maxFollowed w
  Logged.ofExcept ((c.checkNames [] w.nodes).mapError .schema)
  return w.nodes

end WalkContext

/-- Names the types of a closure. -/
def resolverOf (nodes : List Node) : Resolver := fun type ↦
  (nodes.find? fun n ↦ decide (n.ref.type = type)).map fun n ↦ ⟨n.qualifiedName, n.sort⟩

end ProtoSchema
