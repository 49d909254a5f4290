import ProtoSchema.Proofs.Compilation.Resolving
import ProtoSchema.Proofs.Compilation.Stability
import ProtoSchema.Proofs.Registry.Claimants

/-!
# Who claimed a name

A unit is refused when two types of its closure come to one name, or when a generated one comes to
the name of another type of the registry. The closure is gone through in the order in which its
types were reached, so the type that is told first is the one that claimed the name earlier: it was
reached before, or it has the name in the registry already. No other error of preparing is about
names that are claimed twice, since building looks at one type at a time.
-/

set_option autoImplicit false

namespace ProtoSchema

namespace WalkContext

variable {c : WalkContext} {requested : List TypeRef} {w : Walk} {n : Node}
  {earlier nodes : List Node} {name first second : String}

/-- The walk of a closure, before its names are looked at. -/
def walk (c : WalkContext) (requested : List TypeRef) : Logged CompileError Walk := do
  let w ← requested.foldlM c.request {}
  c.follow c.maxFollowed w

theorem result_closure (c : WalkContext) (requested : List TypeRef) :
    (c.closure requested).result = do
      let w ← (c.walk requested).result
      (c.checkNames [] w.nodes).mapError .schema
      return w.nodes := by
  unfold closure walk
  simp only [Logged.result_bind, Logged.result_ofExcept, Logged.result_pure]
  cases (requested.foldlM c.request {}).result <;> rfl

theorem walk_sound (h : (c.walk requested).result = .ok w) : w.Sound c := by
  obtain ⟨w', hw', h⟩ := Logged.bind_eq_ok.1 h
  have hstep : ∀ ref w w', w.Sound c → c.Reached ref w w' → w'.Sound c :=
    fun _ _ _ hw hreached ↦ hreached.step.sound hw
  have hrequested := (reachedEach_of_request hw').induction (fun ref _ ↦ hstep ref)
    ⟨List.nodup_nil, fun n hn ↦ absurd hn List.not_mem_nil⟩
  exact follow_induction hstep (fun _ _ hw ↦ ⟨hw.distinct, hw.nodes⟩) hrequested h

/-! ## Looking at names

Names are looked at one after the other, each against those before it and against the registry. The
first one that does not fit is the one that is refused. -/

theorem checkNames_cons (c : WalkContext) (earlier : List Node) (n : Node) (rest : List Node) :
    c.checkNames earlier (n :: rest) =
      c.checkNames earlier [n] >>= fun _ ↦ c.checkNames (n :: earlier) rest := by
  simp only [checkNames]
  repeat' split
  all_goals rfl

theorem exists_of_checkNames_eq_error {e : SchemaError}
    (h : c.checkNames earlier nodes = .error e) :
    ∃ between n later, nodes = between ++ n :: later ∧ c.NamesFit earlier between ∧
      c.checkNames (between.reverse ++ earlier) [n] = .error e := by
  induction nodes generalizing earlier with
  | nil => cases h
  | cons n rest ih =>
    rw [checkNames_cons] at h
    rcases bind_eq_error.1 h with hn | ⟨⟨⟩, hn, hrest⟩
    · exact ⟨[], n, rest, rfl, checkNames_eq_ok.1 rfl, hn⟩
    · obtain ⟨between, n', later, rfl, hfit, hn'⟩ := ih hrest
      refine ⟨n :: between, n', later, rfl, ?_, ?_⟩
      · rw [← checkNames_eq_ok, checkNames_cons, hn, ok_bind, checkNames_eq_ok]
        exact hfit
      · rwa [List.reverse_cons, List.append_assoc, List.singleton_append]

/-- Another type that claimed the name of a type in a walk before it, and the path that is told for
it: a type that was reached earlier, or one that has the name in the registry. -/
inductive ClaimedBefore (c : WalkContext) (earlier : List Node) (n : Node) : String → Prop
  | reached {m : Node} (hm : m ∈ earlier) (hname : m.qualifiedName = n.qualifiedName)
      (htype : m.ref.type ≠ n.ref.type) : ClaimedBefore c earlier n (m.path c.env)
  | registered {path : String} (hd : n.decision = .generate)
      (h : c.registry.HeldByOther n.qualifiedName n.ref.type path) : ClaimedBefore c earlier n path

theorem claimedBefore_of_checkNames (hdistinct : ∀ m ∈ earlier, m.ref.type ≠ n.ref.type)
    (h : c.checkNames earlier.reverse [n] = .error (.duplicateTypeName name first second)) :
    n.qualifiedName = name ∧ n.path c.env = second ∧ c.ClaimedBefore earlier n first := by
  rw [checkNames] at h
  split at h
  · next m hm =>
    cases h
    have hname := List.find?_some hm
    have hm := List.mem_reverse.1 (List.mem_of_find?_eq_some hm)
    exact ⟨rfl, rfl, .reached hm (eq_of_beq hname) (hdistinct m hm)⟩
  · split at h
    · next e hd he =>
      split at h
      · cases h
      · next hne =>
        cases h
        exact ⟨rfl, rfl, .registered hd ⟨e, he, hne, rfl⟩⟩
    · cases h

/-- Two claims to a name: the first type in the order of a walk that comes to a name which another
type claimed before, and what is told for the two. -/
def Clashes (c : WalkContext) (nodes : List Node) (name first second : String) : Prop :=
  ∃ earlier n later, nodes = earlier ++ n :: later ∧ c.NamesFit [] earlier ∧
    n.qualifiedName = name ∧ n.path c.env = second ∧ c.ClaimedBefore earlier n first

theorem clashes_of_closure
    (h : (c.closure requested).result =
      .error (.schema (.duplicateTypeName name first second))) :
    ∃ w, (c.walk requested).result = .ok w ∧ c.Clashes w.nodes name first second := by
  have hwalk : Avoids CompileError.IsSchema (c.walk requested).result := by
    unfold walk
    rw [Logged.result_bind]
    exact (avoids_foldlM (fun _ _ ↦ avoids_request) _).bind fun _ _ ↦ avoids_follow
  rw [result_closure] at h
  rcases bind_eq_error.1 h with h | ⟨w, hw, h⟩
  · exact absurd trivial (hwalk _ h)
  · refine ⟨w, hw, ?_⟩
    rcases bind_eq_error.1 h with h | ⟨_, -, h⟩
    · obtain ⟨cause, hcheck, hcause⟩ := mapError_eq_error.1 h
      obtain rfl := CompileError.schema.inj hcause
      obtain ⟨earlier, n, later, hnodes, hfit, hn⟩ := exists_of_checkNames_eq_error hcheck
      have hdistinct := (walk_sound hw).distinct
      rw [hnodes, List.map_append, List.map_cons] at hdistinct
      have hother : ∀ m ∈ earlier, m.ref.type ≠ n.ref.type := fun m hm ↦
        (List.nodup_append.1 hdistinct).2.2 _ (List.mem_map_of_mem hm) _ List.mem_cons_self
      rw [List.append_nil] at hn
      exact ⟨earlier, n, later, hnodes, hfit, claimedBefore_of_checkNames hother hn⟩
    · cases h

end WalkContext

/-- Preparing finds that names are claimed twice in the walk and nowhere else. -/
theorem CompilationUnit.clashes_of_prepare {u : CompilationUnit} {env : Environment}
    {registry : Registry} {occasion : Nat} {name first second : String}
    (h : (u.prepare env registry occasion).result =
      .error (.schema (.duplicateTypeName name first second))) :
    ∃ w, ((u.context env registry).walk u.requested).result = .ok w ∧
      (u.context env registry).Clashes w.nodes name first second := by
  -- Checking a unit and building a type find no names that are claimed twice.
  have hschema : ∀ {α : Type} {x : Except SchemaError α}, Confined x →
      x.mapError CompileError.schema ≠ .error (.schema (.duplicateTypeName name first second)) := by
    intro α x hx h
    obtain ⟨cause, hcause, heq⟩ := mapError_eq_error.1 h
    obtain rfl := CompileError.schema.inj heq
    exact hx _ hcause trivial
  unfold prepare at h
  rw [Logged.result_bind] at h
  rcases bind_eq_error.1 h with h | ⟨_, -, h⟩
  · exact absurd h (hschema u.confined_check)
  rw [Logged.result_bind] at h
  rcases bind_eq_error.1 h with h | ⟨nodes, hnodes, h⟩
  · exact WalkContext.clashes_of_closure h
  rw [Logged.result_bind] at h
  rcases bind_eq_error.1 h with h | ⟨_, -, h⟩
  · refine absurd h (hschema ?_)
    exact avoids_generateAll fun n hn hd stamp ↦ WalkContext.confined_generate hnodes hn hd
  · cases h

namespace Session

/-- **Whoever comes second is told who came first.** After any edits of a registry, a registration
that is refused for its name is told another type that holds the name in the registry, and so is one
of a file, unless the file itself claims the name for another type before. A unit that is refused
for a name is told the type that claimed it first, and another one that comes to it behind that. -/
theorem claimants_runEdits (edits : List Edit) :
    (∀ reg name existing,
      ((runEdits edits).registry.register reg).result = .error (.nameConflict name existing) →
        reg.name = name ∧ (runEdits edits).registry.HeldByOther name reg.type existing) ∧
    (∀ file regs name existing,
      ((runEdits edits).registry.registerSchema file regs).result =
          .error (.nameConflict name existing) →
        ∃ earlier reg later, regs = earlier ++ reg :: later ∧ reg.name = name ∧
          (runEdits edits).registry.Refuses earlier reg existing) ∧
    ∀ (u : CompilationUnit) env occasion name first second,
      (u.prepare env (runEdits edits).registry occasion).result =
          .error (.schema (.duplicateTypeName name first second)) →
        ∃ w, ((u.context env (runEdits edits).registry).walk u.requested).result = .ok w ∧
          (u.context env (runEdits edits).registry).Clashes w.nodes name first second := by
  have hkeyed : (runEdits edits).registry.Keyed :=
    runEdits_induction (fun _ _ _ h ↦ h.register) (fun _ _ _ _ h ↦ h.registerSchema)
      Registry.keyed_empty edits
  exact ⟨fun _ _ _ ↦ hkeyed.heldByOther_of_register,
    fun _ _ _ _ ↦ hkeyed.refuses_of_registerSchema,
    fun _ _ _ _ _ _ ↦ CompilationUnit.clashes_of_prepare⟩

end Session

namespace Tide

def north : TypeId := ⟨"north::Tide"⟩

def south : TypeId := ⟨"south::Tide"⟩

/-- The enum for one of the two types. -/
def registration (type : TypeId) : Registration :=
  let enum : EnumType := ⟨"Tide", "Tide", [⟨"LOW", 0, none⟩], none⟩
  ⟨.enum enum, ⟨0, 0⟩, .enum ⟨type, type.name, enum⟩, ⟨0, 0⟩⟩

def file : SchemaFile := ⟨"tide.proto", none, none, [], []⟩

def environment : Environment :=
  [north, south].map fun type ↦
    { type, path := type.name, kind := .enum [{ name := "Low", number := 0 }] }

def unit : CompilationUnit := { fileName := "tide.proto", requested := [.of north, .of south] }

def edits : List Session.Edit := [.action (.register (registration north))]

end Tide

/-- When northern tides are registered, southern ones are told of them, on their own, in a file and
in a unit that asks for both. -/
theorem Tide.claimants_runEdits_south :
    (Session.runEdits edits).registry.HeldByOther "Tide" south "north::Tide" ∧
    (∃ earlier reg later, [registration south] = earlier ++ reg :: later ∧
      (Session.runEdits edits).registry.Refuses earlier reg "north::Tide") ∧
    ∃ w, ((unit.context environment (Session.runEdits edits).registry).walk
        unit.requested).result = .ok w ∧
      (unit.context environment (Session.runEdits edits).registry).Clashes w.nodes "Tide"
        "north::Tide" "south::Tide" := by
  obtain ⟨hregister, hfile, hunit⟩ := Session.claimants_runEdits edits
  obtain ⟨-, hheld⟩ := hregister (registration south) "Tide" "north::Tide" rfl
  obtain ⟨earlier, reg, later, hregs, -, hrefuses⟩ :=
    hfile file [registration south] "Tide" "north::Tide" rfl
  exact ⟨hheld, ⟨earlier, reg, later, hregs, hrefuses⟩,
    hunit unit environment 0 "Tide" "north::Tide" "south::Tide" rfl⟩

/-- When a file has both, the southern tides are told of themselves. -/
theorem Tide.refused_for_itself :
    (registration north).name = (registration south).name ∧
    (registration north).type ≠ (registration south).type ∧
    (registration north).marshaller.path ≠ (registration south).marshaller.path ∧
    ((Session.runEdits []).registry.registerSchema file
        [registration north, registration south]).result =
      .error (.nameConflict "Tide" (registration south).marshaller.path) :=
  ⟨rfl, by decide, by decide, rfl⟩

end ProtoSchema
