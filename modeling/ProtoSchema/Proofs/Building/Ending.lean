import ProtoSchema.Proofs.Building.Spreading
import ProtoSchema.Proofs.Types.Ending

/-!
# Building comes to an end

A message is built in one walk over its members, which enters each supertype, checks the fields as
it comes to them and gives up at the first dead end. Run by a clock, the walk ends once the clock
goes on for longer than there are described types, and what it has collected by then are the checked
leaves. To come back to a type is a dead end, so a message that was built has none, and the walk
that builds its layout ends without a guard.
-/

set_option autoImplicit false

namespace ProtoSchema

open Text

/-! ## The walk

The walk is the fold over leaves that is used elsewhere, except that it goes into supertypes by
itself. A leaf that is added is checked first, so the fold stops where the walk does, and what
members add is added by their leaves in turn. A clock of the number of described types and one more
is enough, since every type on the way down is another one. -/

/-- What was collected of a message: the types that declare its oneofs, and its fields. -/
structure Collected where
  groups : List (String × TypeId) := []
  declared : List DeclaredField := []

namespace Collected

variable (env : Environment) (resolve : Resolver) (typePath : String)

/-- Checks a field and adds it. A oneof belongs to the first type that declares a member of it. -/
def add (c : Collected) (path : List Nat) (owner : TypeId) (m : Member) :
    Except SchemaError Collected := do
  let (field, binding) ← m.toField env resolve typePath path
  let declared := c.declared ++ [⟨owner, field, binding⟩]
  match field.oneof with
  | none => return { c with declared }
  | some group =>
    match c.groups.lookup group with
    | none => return ⟨(group, owner) :: c.groups, declared⟩
    | some first =>
      if first = owner then return { c with declared }
      else
        throw (.conflictingOneof typePath field.name group
          s!"oneof `{group}` of a flattened supertype")

/-- Adds a leaf, unless it is a dead end. -/
def addLeaf (c : Collected) : Leaf → Except SchemaError Collected
  | .field path owner m => c.add env resolve typePath path owner m
  | .invalid m => .error (.invalidFlatten typePath m.name)
  | .cycle m => .error (.flattenCycle typePath m.name)

/-- Adds the fields of a message, those of supertypes included. There is no outcome if the clock
runs out. -/
def collect : (clock : Nat) → (visiting : List TypeId) → (path : List Nat) → TypeInfo →
    MessageInfo → Collected → ExceptT SchemaError Option Collected
  | 0, _, _, _, _, _ => .mk none
  | clock + 1, visiting, path, info, message, c =>
    message.members.zipIdx.foldlM (fun c (member, index) ↦
      match member.kind with
      | .field _ => .mk (some (c.add env resolve typePath (path ++ [index]) info.type member))
      | .flatten ref =>
        match ref.info? env with
        | none => throw (.invalidFlatten typePath member.name)
        | some parent =>
          match parent.message? with
          | none => throw (.invalidFlatten typePath member.name)
          | some inner =>
            if visiting.contains ref.type then throw (.flattenCycle typePath member.name)
            else collect clock (ref.type :: visiting) (path ++ [index]) parent inner c) c

variable {env resolve typePath} {clock fuel : Nat} {visiting : List TypeId}

theorem declared_foldlM_addLeaf (groups : List (String × TypeId)) (declared : List DeclaredField)
    (leaves : List Leaf) :
    (leaves.foldlM (addLeaf env resolve typePath) ⟨groups, declared⟩).map (·.declared) =
      (checkLeaves env resolve typePath groups leaves).map (declared ++ ·) := by
  induction leaves generalizing groups declared with
  | nil =>
    rw [checkLeaves]
    exact congrArg Except.ok (List.append_nil declared).symm
  | cons leaf rest ih =>
    have hcons : ∀ groups (d : DeclaredField),
        (rest.foldlM (addLeaf env resolve typePath) ⟨groups, declared ++ [d]⟩).map (·.declared) =
          (checkLeaves env resolve typePath groups rest >>= fun ds ↦ .ok (d :: ds)).map
            (declared ++ ·) := by
      intro groups d
      rw [ih]
      cases checkLeaves env resolve typePath groups rest with
      | error e => rfl
      | ok ds => exact congrArg Except.ok (List.append_assoc declared [d] ds)
    rw [List.foldlM_cons]
    cases leaf with
    | invalid m | cycle m => rfl
    | field path owner m =>
      rw [checkLeaves, addLeaf, add]
      cases m.toField env resolve typePath path with
      | error e => rfl
      | ok fb =>
        obtain ⟨field, binding⟩ := fb
        simp only [ok_bind]
        cases field.oneof with
        | none => exact hcons groups _
        | some group =>
          dsimp only
          cases groups.lookup group with
          | none => exact hcons _ _
          | some first =>
            dsimp only
            split
            · exact hcons groups _
            · rfl

theorem checkLeaves_eq (leaves : List Leaf) : checkLeaves env resolve typePath [] leaves =
    (leaves.foldlM (addLeaf env resolve typePath) {}).map (·.declared) := by
  rw [declared_foldlM_addLeaf]
  cases checkLeaves env resolve typePath [] leaves <;> rfl

theorem foldlM_leavesFrom {members : List Member} {followed : List Inlined} {path : List Nat}
    {f : Collected → Member × Nat → ExceptT SchemaError Option Collected}
    (h : List.Forall₂ (fun member i ↦ ∀ c index, f c (member, index) =
      .mk (some ((i.leaves (path ++ [index])).foldlM (addLeaf env resolve typePath) c)))
      members followed) (index : Nat) (c : Collected) :
    (members.zipIdx index).foldlM f c = .mk (some
      ((Inlined.leavesFrom path index followed).foldlM (addLeaf env resolve typePath) c)) := by
  induction h generalizing index c with
  | nil =>
    rw [Inlined.leavesFrom]
    rfl
  | @cons member i members followed hhead _ ih =>
    rw [List.zipIdx_cons, List.foldlM_cons, hhead, Inlined.leavesFrom, List.foldlM_append]
    cases (i.leaves (path ++ [index])).foldlM (addLeaf env resolve typePath) c with
    | error e => rfl
    | ok c' => exact ih (index + 1) c'

/-- **The walk ends** on a clock that goes on for longer than there are types to be entered, with
the leaves added. -/
theorem collect_eq (hclock : (env.unvisited visiting).card < clock)
    (hfuel : (env.unvisited visiting).card ≤ fuel) (path : List Nat) (info : TypeInfo)
    (message : MessageInfo) (c : Collected) :
    collect env resolve typePath clock visiting path info message c = .mk (some
      ((Inlined.leavesFrom path 0
        (inlineMembers env fuel visiting info.type message.members)).foldlM
          (addLeaf env resolve typePath) c)) := by
  induction clock generalizing visiting fuel path info message c with
  | zero => omega
  | succ clock ih =>
    rw [collect]
    refine foldlM_leavesFrom ((follows_inlineMembers hfuel message.members).imp
      fun member i hfollows c index ↦ ?_) 0 c
    cases hfollows with
    | field hkind =>
      rw [Inlined.leaves, List.foldlM_cons]
      simp only [hkind, addLeaf]
      cases c.add env resolve typePath (path ++ [index]) info.type member <;> rfl
    | @invalid ref hkind hinfo =>
      simp only [hkind, Inlined.leaves]
      cases hdescribed : ref.info? env with
      | none => rfl
      | some parent =>
        simp only [hinfo parent hdescribed]
        rfl
    | @cycle ref parent inner hkind hinfo hmessage hagain =>
      have hagain : visiting.contains ref.type = true := by simpa using hagain
      simp only [hkind, hinfo, hmessage, hagain, if_true, Inlined.leaves]
      rfl
    | @parent ref parent inner rest hkind hinfo hmessage hnew hrest =>
      have hless := Environment.card_unvisited_cons hinfo hnew
      have hnew : ¬visiting.contains ref.type = true := by simpa using hnew
      simp only [hkind, hinfo, hmessage, if_neg hnew, Inlined.leaves]
      exact ih (by omega) hrest (path ++ [index]) parent inner c

end Collected

/-! ## Building

Apart from the walk, a message is built without recursion, and an enum is built at once. So the
clock of the walk is all that building needs. -/

/-- What remains to be checked of a message whose fields are collected. -/
def finishMessage (info : TypeInfo) (qualifiedName : String) (declared : List DeclaredField) :
    Except SchemaError BuiltMessage := do
  let fields := declared.map (·.field)
  checkDistinct info.path [] fields
  checkGroupNames info.path fields fields
  return {
    descriptor :=
      { name := info.typeName, qualifiedName, fields, oneofs := groupFields fields
        docs := info.docs }
    bindings := declared.map (·.binding) }

/-- Builds a message in one walk. There is no outcome if the clock runs out. -/
def buildMessageWithin (env : Environment) (resolve : Resolver) (clock : Nat) (info : TypeInfo)
    (message : MessageInfo) (qualifiedName : String) : ExceptT SchemaError Option BuiltMessage := do
  ExceptT.mk (some (checkParams info.path message))
  let c ← Collected.collect env resolve info.path clock [info.type] [] info message {}
  ExceptT.mk (some (finishMessage info qualifiedName c.declared))

/-- Builds the descriptor of a referenced type in one walk. There is no outcome if the clock runs
out. -/
def buildWithin (env : Environment) (resolve : Resolver) (clock : Nat) (ref : TypeRef) :
    ExceptT SchemaError Option Built := do
  let some info := ref.info? env | throw (.missingTypeInfo (ref.path env))
  let some resolved := resolve ref.type | throw (.missingTypeInfo (ref.path env))
  if !isIdentifier info.typeName then throw (.invalidName info.path info.typeName)
  match info.kind with
  | .message message =>
    return .message (← buildMessageWithin env resolve clock info message resolved.qualifiedName)
  | .enum variants =>
    return .enum (← ExceptT.mk (some (buildEnum info variants resolved.qualifiedName)))

section

variable {env : Environment} {resolve : Resolver} {clock : Nat} {info : TypeInfo}
  {message : MessageInfo} {name : String} {ref : TypeRef}

theorem buildMessageWithin_eq (hclock : env.length + builtinAdapters.length < clock) :
    buildMessageWithin env resolve clock info message name =
      .mk (some (buildMessage env resolve info message name)) := by
  have hunvisited := env.card_unvisited_le [info.type]
  have hwalk : Collected.collect env resolve info.path clock [info.type] [] info message {} =
      .mk (some ((info.leaves env message).foldlM (Collected.addLeaf env resolve info.path) {})) :=
    Collected.collect_eq (Nat.lt_of_le_of_lt hunvisited hclock) hunvisited [] info message {}
  have hbuild : buildMessage env resolve info message name = checkParams info.path message >>=
      fun _ ↦ checkLeaves env resolve info.path [] (info.leaves env message) >>=
        finishMessage info name := rfl
  rw [buildMessageWithin, hwalk, hbuild, Collected.checkLeaves_eq]
  cases checkParams info.path message with
  | error e => rfl
  | ok _ =>
    cases (info.leaves env message).foldlM (Collected.addLeaf env resolve info.path) {} <;> rfl

/-- **Building ends** on a clock that goes on for longer than there are described types. -/
theorem buildWithin_eq (hclock : env.length + builtinAdapters.length < clock) :
    (buildWithin env resolve clock ref).run = some (build env resolve ref).result := by
  unfold buildWithin build
  cases ref.info? env with
  | none => rfl
  | some info =>
    cases resolve ref.type with
    | none => rfl
    | some resolved =>
      dsimp only
      split
      · rfl
      · cases info.kind with
        | message message =>
          dsimp only
          rw [buildMessageWithin_eq hclock]
          cases buildMessage env resolve info message resolved.qualifiedName <;> rfl
        | enum variants =>
          dsimp only
          cases buildEnum info variants resolved.qualifiedName <;> rfl

theorem exists_layout_of_build {built : Built} (hinfo : ref.info? env = some info)
    (hmessage : info.message? = some message)
    (hbuild : (build env resolve ref).result = .ok built) :
    ∃ l, Layout.ofInfo env info message = .ok l := by
  obtain ⟨_, -, ⟨message', b, hkind, rfl, hmade⟩ | ⟨_, _, hkind, -⟩⟩ := build_eq_ok hinfo hbuild
  · obtain rfl : message = message' := by
      cases (TypeInfo.kind_of_message? hmessage).symm.trans hkind
      rfl
    obtain ⟨m, hcompile⟩ := MessageMarshaller.exists_compile hmessage hmade
    obtain ⟨-, -, ⟨message', hmessage', hlayout⟩, -⟩ := MessageMarshaller.compile_eq_ok hcompile
    obtain rfl := Option.some.inj (hmessage.symm.trans hmessage')
    exact ⟨m.layout, hlayout⟩
  · cases (TypeInfo.kind_of_message? hmessage).symm.trans hkind

/-- **Flattening ends.** However types flatten one another, building a type and collecting what it
refers to take no more than one step down for each described type. A type below which a supertype is
come back to is not built. So the layout of a type that was built is reached without a guard. -/
theorem TypeInfo.flattening_ends (hinfo : ref.info? env = some info) :
    (∀ clock, env.length + builtinAdapters.length < clock →
      (buildWithin env resolve clock ref).run = some (build env resolve ref).result ∧
        info.collectRefs env clock [info.type] = some (info.references env)) ∧
      (info.ComesBack env → ∃ e, (build env resolve ref).result = .error e) ∧
      ∀ built message, (build env resolve ref).result = .ok built →
        info.message? = some message → ∃ l, Layout.ofInfo env info message = .ok l ∧
          ∀ clock, env.length + builtinAdapters.length < clock →
            (Layout.newWithin env clock info message).run = some (.ok l) := by
  have hunvisited := env.card_unvisited_le [info.type]
  refine ⟨fun clock hclock ↦ ⟨buildWithin_eq hclock, ?_⟩, fun hback ↦ ?_, ?_⟩
  · rw [references_eq]
    exact collectRefs_eq (Nat.lt_of_le_of_lt hunvisited hclock) hunvisited info []
  · cases hbuild : (build env resolve ref).result with
    | error e => exact ⟨e, rfl⟩
    | ok built =>
      cases hmessage : info.message? with
      | none =>
        -- An enum flattens nothing.
        obtain ⟨owner, path, message, hvia, hmessage', -⟩ := hback
        cases hvia with
        | self => cases hmessage.symm.trans hmessage'
        | step hflat _ =>
          obtain ⟨_, hmessage', -⟩ := hflat
          cases hmessage.symm.trans hmessage'
      | some message =>
        obtain ⟨l, hl⟩ := exists_layout_of_build hinfo hmessage hbuild
        exact absurd hback (not_comesBack_of_layout hmessage hl)
  · intro built message hbuild hmessage
    obtain ⟨l, hl⟩ := exists_layout_of_build hinfo hmessage hbuild
    refine ⟨l, hl, fun clock hclock ↦ ?_⟩
    rw [Layout.newWithin_of_ofInfo hl hclock]
    rfl

end

/-! ## Beasts that end in beasts

A diamond of supertypes is no cycle, since each of the two ways down ends. A type that is met on the
way down a second time is one, and it is refused at the member that leads back. -/

namespace Beasts

def beast : TypeId := ⟨"beasts::Beast"⟩

def lion : TypeId := ⟨"beasts::Lion"⟩

def snake : TypeId := ⟨"beasts::Snake"⟩

def chimera : TypeId := ⟨"beasts::Chimera"⟩

def head : TypeId := ⟨"beasts::Head"⟩

def tail : TypeId := ⟨"beasts::Tail"⟩

/-- A lion in front and a snake behind, each of which is a beast. -/
def chimeraInfo : TypeInfo :=
  .storing chimera
    [({ name := "front", kind := .flatten (.of lion), getter := · }),
      ({ name := "back", kind := .flatten (.of snake), getter := · })]

/-- The head of an ouroboros holds its tail. -/
def headInfo : TypeInfo :=
  .storing head [({ name := "tail", kind := .flatten (.of tail), getter := · })]

/-- The tail of an ouroboros ends in its head. -/
def tailInfo : TypeInfo :=
  .storing tail
    [({ name := "length", kind := .field (.scalar .int32), getter := ·, number := some 1 }),
      ({ name := "head", kind := .flatten (.of head), getter := · })]

def environment : Environment :=
  [.storing beast [],
    .storing lion
      [({ name := "beast", kind := .flatten (.of beast), getter := · }),
        ({ name := "mane", kind := .field (.scalar .int32), getter := ·, number := some 1 })],
    .storing snake
      [({ name := "beast", kind := .flatten (.of beast), getter := · }),
        ({ name := "venom", kind := .field (.scalar .string), getter := ·, number := some 2 })],
    chimeraInfo, headInfo, tailInfo]

def resolve : Resolver := fun _ ↦ some ⟨"beasts.Beast", .message⟩

/-- The head stands on the path to the tail, which flattens it. -/
theorem comesBack_headInfo : headInfo.ComesBack environment := by
  have htail : headInfo.Flattens environment tailInfo :=
    ⟨_, rfl, _, List.mem_singleton_self _, .of tail, rfl, rfl⟩
  exact ⟨tailInfo, [tailInfo.type], _, .step htail .self, rfl, _,
    List.mem_cons_of_mem _ (List.mem_singleton_self _), .of head, rfl, by decide⟩

end Beasts

/-- A chimera is built although it is a beast twice over, and the head of an ouroboros is not. -/
theorem Beasts.flattening_ends_chimera : ∃ message built l e,
    (TypeRef.of chimera).info? environment = some chimeraInfo ∧
    chimeraInfo.message? = some message ∧
    (build environment resolve (.of chimera)).result = .ok built ∧
    (buildWithin environment resolve 12 (.of chimera)).run = some (.ok built) ∧
    (Layout.newWithin environment 12 chimeraInfo message).run = some (.ok l) ∧
    (TypeRef.of head).info? environment = some headInfo ∧
    headInfo.ComesBack environment ∧ (build environment resolve (.of head)).result = .error e := by
  have hinfo : (TypeRef.of chimera).info? environment = some chimeraInfo := rfl
  obtain ⟨message, hmessage⟩ : ∃ message, chimeraInfo.message? = some message := ⟨_, rfl⟩
  obtain ⟨built, hbuild⟩ : ∃ built, (build environment resolve (.of chimera)).result = .ok built :=
    isSome_toOption_iff.1 (by decide +kernel)
  obtain ⟨hends, -, hlayout⟩ :=
    @TypeInfo.flattening_ends environment resolve chimeraInfo (.of chimera) hinfo
  obtain ⟨hwithin, -⟩ := hends 12 (by decide)
  obtain ⟨l, -, hnew⟩ := hlayout built message hbuild hmessage
  obtain ⟨-, hback, -⟩ := @TypeInfo.flattening_ends environment resolve headInfo (.of head) rfl
  obtain ⟨e, he⟩ := hback comesBack_headInfo
  exact ⟨message, built, l, e, hinfo, hmessage, hbuild, hbuild ▸ hwithin, hnew 12 (by decide), rfl,
    comesBack_headInfo, he⟩

end ProtoSchema
