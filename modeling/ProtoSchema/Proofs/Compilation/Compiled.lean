import ProtoSchema.Proofs.Codec.Marshaller
import ProtoSchema.Proofs.Compilation.Closure
import ProtoSchema.Proofs.Registry.Closed

/-!
# Compiled registries are closed

A registry is compiled when it is empty or comes from a compiled one by committing a prepared unit.
The unit may have been prepared against an earlier registry. Compiled registries are closed: a type
that a generated one refers to is in the closure of its unit, and a type of the closure is either
registered with it or was imported from an entry that is still there.

Preparing and committing are kept apart throughout. What is generated depends on the registry that
the unit was prepared against, what is bound depends on the one that it is committed to, and all
that carries from one to the other is that entries are never taken back.
-/

set_option autoImplicit false

namespace ProtoSchema

/-! ## Compiled registries

The empty registry is compiled, and so is whatever is committed to a compiled one. -/

/-- The registries that compilation units build up. -/
inductive Registry.Compiled : Registry → Prop
  | empty : Compiled .empty
  | commit {u : CompilationUnit} {env : Environment} {earlier reg reg' : Registry} {occasion : Nat}
      {p : Prepared} (hearlier : Compiled earlier) (hreg : Compiled reg)
      (hextends : reg.Extends earlier) (hprepare : (u.prepare env earlier occasion).result = .ok p)
      (hcommit : (p.commit reg).result = .ok reg') : Compiled reg'

/-- Compiling is preparing and committing at once. -/
theorem CompilationUnit.compile_eq_ok {u : CompilationUnit} {env : Environment}
    {reg reg' : Registry} {occasion : Nat} {p : Prepared} :
    (u.compile env reg occasion).result = .ok (p, reg') ↔
      (u.prepare env reg occasion).result = .ok p ∧ (p.commit reg).result = .ok reg' := by
  constructor
  · intro h
    obtain ⟨p', hprepare, h⟩ := Logged.bind_eq_ok.1 h
    obtain ⟨reg'', hcommit, h⟩ := Logged.bind_eq_ok.1 h
    cases h
    exact ⟨hprepare, hcommit⟩
  · rintro ⟨hprepare, hcommit⟩
    exact Logged.bind_eq_ok.2 ⟨p, hprepare, Logged.bind_eq_ok.2 ⟨reg', hcommit, rfl⟩⟩

/-- A unit that is prepared and committed at once. -/
theorem Registry.Compiled.compile {u : CompilationUnit} {env : Environment} {reg reg' : Registry}
    {occasion : Nat} {p : Prepared} (hreg : reg.Compiled)
    (h : (u.compile env reg occasion).result = .ok (p, reg')) : reg'.Compiled := by
  obtain ⟨hprepare, hcommit⟩ := CompilationUnit.compile_eq_ok.1 h
  exact .commit hreg hreg (.refl reg) hprepare hcommit

/-! ## What a marshaller is made of

A marshaller does not keep the description that it was compiled from. It is enough that there is
one, by which all checks were passed. -/

/-- The layout of a marshaller is that of a description of its type. -/
def MessageMarshaller.Describes (m : MessageMarshaller) (env : Environment) (ref : TypeRef) :
    Prop :=
  ∃ info message, ref.info? env = some info ∧ info.message? = some message ∧
    Layout.ofInfo env info message = .ok m.layout

/-- A marshaller is made of a description of its type that passed all checks. -/
structure MessageMarshaller.MadeOf (m : MessageMarshaller) (env : Environment) (resolve : Resolver)
    (info : TypeInfo) (message : MessageInfo) : Prop where
  kind : info.message? = some message
  built : ∃ name built, buildMessage env resolve info message name = .ok built ∧
    MessageMarshaller.compile env info built = .ok m

namespace MessageMarshaller.MadeOf

variable {m : MessageMarshaller} {env : Environment} {resolve : Resolver} {info : TypeInfo}
  {message : MessageInfo}

theorem type (h : m.MadeOf env resolve info message) : m.type = info.type := by
  obtain ⟨name, built, hbuild, hcompile⟩ := h.built
  exact (compile_sound (buildMessage_sound hbuild) hcompile).1

theorem wellFormed (h : m.MadeOf env resolve info message) : m.WellFormed := by
  obtain ⟨name, built, hbuild, hcompile⟩ := h.built
  exact (compile_sound (buildMessage_sound hbuild) hcompile).2.1

theorem refersTo (h : m.MadeOf env resolve info message) :
    ∀ p ∈ m.plans, p.RefersTo resolve.Names := by
  obtain ⟨name, built, hbuild, hcompile⟩ := h.built
  exact (compile_sound (buildMessage_sound hbuild) hcompile).2.2

theorem fields (h : m.MadeOf env resolve info message) :
    m.plans.map (·.field) = m.descriptor.fields := by
  obtain ⟨name, built, hbuild, hcompile⟩ := h.built
  exact fields_of_compile (buildMessage_sound hbuild) hcompile

theorem layout (h : m.MadeOf env resolve info message) :
    Layout.ofInfo env info message = .ok m.layout := by
  obtain ⟨name, built, -, hcompile⟩ := h.built
  obtain ⟨-, -, ⟨message', hmessage', hlayout⟩, -⟩ := compile_eq_ok hcompile
  obtain rfl := Option.some.inj (h.kind.symm.trans hmessage')
  exact hlayout

end MessageMarshaller.MadeOf

/-- The descriptor that a marshaller works by. -/
def Marshaller.descriptor : Marshaller → Descriptor
  | message m => .message m.descriptor
  | enum m => .enum m.descriptor

/-- What a generated registration is: a marshaller of the node's type and sort with its descriptor,
for a message one that is made of the node's description. -/
structure Registration.Sound (r : Registration) (env : Environment) (resolve : Resolver)
    (n : Node) : Prop where
  type : r.marshaller.type = n.ref.type
  described : r.descriptor = r.marshaller.descriptor
  same : r.descriptor.sort = n.sort
  made : ∀ m, r.marshaller = .message m → ∃ info message, n.ref.info? env = some info ∧
    m.MadeOf env resolve info message

variable {c : WalkContext} {resolve : Resolver} {fileName : String} {stamp : Stamp} {n : Node}

theorem Registration.Sound.sort {r : Registration} {env : Environment}
    (h : r.Sound env resolve n) : r.descriptor.sort = r.marshaller.sort := by
  rw [h.described]
  cases r.marshaller <;> rfl

theorem build_eq_ok {env : Environment} {ref : TypeRef} {info : TypeInfo} {built : Built}
    (hinfo : ref.info? env = some info) (h : (build env resolve ref).result = .ok built) :
    ∃ resolved, resolve ref.type = some resolved ∧
      ((∃ message b, info.kind = .message message ∧ built = .message b ∧
          buildMessage env resolve info message resolved.qualifiedName = .ok b) ∨
        ∃ variants e, info.kind = .enum variants ∧ built = .enum e ∧
          buildEnum info variants resolved.qualifiedName = .ok e) := by
  unfold build at h
  rw [hinfo] at h
  dsimp only at h
  split at h
  · next resolved hresolved =>
    refine ⟨resolved, hresolved, ?_⟩
    split at h
    · cases h
    · split at h
      · next message hkind =>
        obtain ⟨b, hb, h⟩ := Logged.bind_eq_ok.1 h
        obtain ⟨_, -, h⟩ := Logged.bind_eq_ok.1 h
        cases h
        exact .inl ⟨message, b, hkind, rfl, hb⟩
      · next variants hkind =>
        rw [Logged.result_map, map_eq_ok] at h
        obtain ⟨e, he, rfl⟩ := h
        exact .inr ⟨variants, e, hkind, rfl, he⟩
  · cases h

/-! ## Generating

Every generated type of a closure is built, in the order of the closure, and bears the name that the
closure gave it. What a plan refers to is in the closure, too, as what the plan takes it for. -/

theorem buildEnum_eq_ok {info : TypeInfo} {variants : List Variant} {name : String}
    {e : EnumType} : buildEnum info variants name = .ok e ↔
      variants ≠ [] ∧ ∃ values, checkVariants info.path [] variants = .ok values ∧
        e = { name := info.typeName, qualifiedName := name, values, docs := info.docs } := by
  unfold buildEnum
  cases variants with
  | nil => simp [bind, Except.bind, throw, throwThe, MonadExceptOf.throw]
  | cons v rest =>
    constructor
    · intro h
      obtain ⟨values, hvalues, h⟩ := bind_eq_ok.1 h
      exact ⟨List.cons_ne_nil v rest, values, hvalues, (Except.ok.inj h).symm⟩
    · rintro ⟨-, values, hvalues, rfl⟩
      exact bind_eq_ok.2 ⟨values, hvalues, rfl⟩

theorem names_of_build {env : Environment} {ref : TypeRef} {info : TypeInfo} {built : Built}
    (hinfo : ref.info? env = some info) (h : (build env resolve ref).result = .ok built) :
    built.descriptor.name = info.typeName ∧ ∃ resolved, resolve ref.type = some resolved ∧
      built.descriptor.qualifiedName = resolved.qualifiedName := by
  obtain ⟨resolved, hresolved, ⟨message, b, -, rfl, hb⟩ | ⟨variants, e, -, rfl, he⟩⟩ :=
    build_eq_ok hinfo h
  · obtain ⟨-, declared, -, -, -, rfl⟩ := buildMessage_eq_ok.1 hb
    exact ⟨rfl, resolved, hresolved, rfl⟩
  · obtain ⟨-, values, -, rfl⟩ := buildEnum_eq_ok.1 he
    exact ⟨rfl, resolved, hresolved, rfl⟩

theorem generate_sound (hn : n.Sound c) (hg : n.decision = .generate) {r : Registration}
    (h : (generate c.env resolve fileName stamp n).result = .ok r) : r.Sound c.env resolve n := by
  unfold Node.Sound at hn
  rw [hg] at hn
  obtain ⟨info, hinfo, hsort⟩ := hn
  have htype := TypeRef.type_of_info? hinfo
  unfold generate at h
  rw [hinfo] at h
  obtain ⟨built, hbuilt, h⟩ := Logged.bind_eq_ok.1 h
  obtain ⟨marshaller, hm, h⟩ := Logged.bind_eq_ok.1 h
  obtain ⟨_, -, h⟩ := Logged.bind_eq_ok.1 h
  cases h
  obtain ⟨resolved, -, ⟨message, b, hkind, rfl, hb⟩ | ⟨variants, e, hkind, rfl, he⟩⟩ :=
    build_eq_ok hinfo hbuilt
  · obtain ⟨m, hcompile, rfl⟩ := map_eq_ok.1 (show (MessageMarshaller.compile c.env info b).map
      Marshaller.message = .ok marshaller from hm)
    have hmessage : info.message? = some message := by
      rw [TypeInfo.message?, hkind]
    have hmade : m.MadeOf c.env resolve info message := ⟨hmessage, _, b, hb, hcompile⟩
    exact {
      type := hmade.type.trans htype
      described := congrArg Descriptor.message (MessageMarshaller.compile_eq_ok hcompile).2.1.symm
      same := by
        rw [hsort, hkind]
        rfl
      made := fun m' hm' ↦ by
        cases hm'
        exact ⟨info, message, hinfo, hmade⟩ }
  · cases hm
    exact {
      type := htype
      described := rfl
      same := by
        rw [hsort, hkind]
        rfl
      made := fun m' hm' ↦ by cases hm' }

theorem generate_name {env : Environment} {r : Registration}
    (h : (generate env resolve fileName stamp n).result = .ok r) :
    ∃ resolved, resolve n.ref.type = some resolved ∧ r.name = resolved.qualifiedName := by
  unfold generate at h
  split at h
  · next info hinfo =>
    obtain ⟨built, hbuilt, h⟩ := Logged.bind_eq_ok.1 h
    obtain ⟨marshaller, -, h⟩ := Logged.bind_eq_ok.1 h
    obtain ⟨_, -, h⟩ := Logged.bind_eq_ok.1 h
    cases h
    exact (names_of_build hinfo hbuilt).2
  · cases h

theorem generateAll_eq_ok {env : Environment} {occasion index : Nat} {nodes : List Node}
    {generated : List (Node × Registration)}
    (h : (generateAll env resolve fileName occasion index nodes).result = .ok generated) :
    generated.map (·.1) = nodes.filter (fun n ↦ n.decision matches .generate) ∧
      ∀ g ∈ generated, g.1 ∈ nodes ∧ g.1.decision = .generate ∧
        ∃ stamp, (generate env resolve fileName stamp g.1).result = .ok g.2 := by
  induction nodes generalizing index generated with
  | nil =>
    cases h
    exact ⟨rfl, fun g hg ↦ absurd hg List.not_mem_nil⟩
  | cons n rest ih =>
    rw [generateAll] at h
    split at h
    · next e hd =>
      obtain ⟨hmap, hrest⟩ := ih h
      exact ⟨by rw [List.filter_cons_of_neg (by simp [hd]), hmap],
        fun g hg ↦ (hrest g hg).imp_left (List.mem_cons_of_mem n)⟩
    · next hd =>
      obtain ⟨r, hr, h⟩ := Logged.bind_eq_ok.1 h
      obtain ⟨gs, hgs, h⟩ := Logged.bind_eq_ok.1 h
      cases h
      obtain ⟨hmap, hrest⟩ := ih hgs
      refine ⟨by rw [List.filter_cons_of_pos (by simp [hd]), List.map_cons, hmap], fun g hg ↦ ?_⟩
      rcases List.mem_cons.1 hg with rfl | hg
      · exact ⟨List.mem_cons_self, hd, _, hr⟩
      · exact (hrest g hg).imp_left (List.mem_cons_of_mem n)

theorem name_of_generateAll {env : Environment} {occasion index : Nat} {nodes : List Node}
    {generated : List (Node × Registration)} (hdistinct : (nodes.map (·.ref.type)).Nodup)
    (h : (generateAll env (resolverOf nodes) fileName occasion index nodes).result
      = .ok generated) : ∀ g ∈ generated, g.2.name = g.1.qualifiedName := by
  intro g hg
  obtain ⟨hn, -, stamp, hr⟩ := (generateAll_eq_ok h).2 g hg
  obtain ⟨resolved, hresolved, hname⟩ := generate_name hr
  rw [resolverOf_of_mem hdistinct hn] at hresolved
  cases hresolved
  exact hname

theorem Plan.RefersTo.resolved {reg : Registry} {p : Plan} (h : p.RefersTo reg.Registers) :
    p.element.Resolved reg := by
  unfold RefersTo at h
  cases he : p.element with
  | scalar s => trivial
  | enum target isOpen =>
    rw [he] at h
    obtain ⟨name, -, e, hget, -, hsort⟩ := h
    cases hm : e.marshaller with
    | message m => rw [hm] at hsort; cases hsort
    | enum m => exact ⟨m, Registry.enumMarshaller?_eq_some.2 ⟨e, hget, hm⟩⟩
  | message target =>
    rw [he] at h
    obtain ⟨name, -, e, hget, -, hsort⟩ := h
    cases hm : e.marshaller with
    | message m => exact ⟨m, Registry.messageMarshaller?_eq_some.2 ⟨e, hget, hm⟩⟩
    | enum m => rw [hm] at hsort; cases hsort

/-! ## Preparing and committing

A prepared unit knows of its closure the generated types only, and of these what was built.
Committing adds them to the registry and leaves everything else where it is. -/

/-- The file and the registrations of a closure whose generated types were built. -/
def CompilationUnit.prepared (u : CompilationUnit) (nodes : List Node)
    (generated : List (Node × Registration)) : Prepared where
  file :=
    { name := u.fileName, package := u.package, generator := u.generator
      imports := importedFiles u.fileName (importedEntries nodes)
      types := generated.map fun (_, r) ↦ r.descriptor }
  entries :=
    generated.map (fun (n, r) ↦ .generated r n.ref u.generator)
      ++ (importedEntries nodes).map .imported
  registrations := generated.map (·.2)

theorem CompilationUnit.types_prepared {u : CompilationUnit} {nodes : List Node}
    {generated : List (Node × Registration)} : (u.prepared nodes generated).file.types =
      (u.prepared nodes generated).registrations.map (·.descriptor) := by
  rw [prepared, List.map_map]
  rfl

section

variable {u : CompilationUnit} {env : Environment} {earlier reg reg' : Registry} {occasion : Nat}
  {p : Prepared}

/-- A prepared unit holds what was generated for its closure, and what the closure imports. -/
theorem CompilationUnit.prepare_iff : (u.prepare env earlier occasion).result = .ok p ↔
    u.check = .ok () ∧ ∃ (nodes : List Node) (generated : List (Node × Registration)),
      ((u.context env earlier).closure u.requested).result = .ok nodes ∧
      (generateAll env (resolverOf nodes) u.fileName occasion 0 nodes).result = .ok generated ∧
      p = u.prepared nodes generated := by
  constructor
  · intro h
    obtain ⟨_, hcheck, h⟩ := Logged.bind_eq_ok.1 h
    obtain ⟨nodes, hnodes, h⟩ := Logged.bind_eq_ok.1 h
    obtain ⟨generated, hgenerated, h⟩ := Logged.bind_eq_ok.1 h
    cases h
    exact ⟨mapError_eq_ok.1 hcheck, nodes, generated, hnodes, mapError_eq_ok.1 hgenerated, rfl⟩
  · rintro ⟨hcheck, nodes, generated, hnodes, hgenerated, rfl⟩
    exact Logged.bind_eq_ok.2 ⟨(), mapError_eq_ok.2 hcheck, Logged.bind_eq_ok.2 ⟨nodes, hnodes,
      Logged.bind_eq_ok.2 ⟨generated, mapError_eq_ok.2 hgenerated, rfl⟩⟩⟩

theorem CompilationUnit.generated_sound {nodes : List Node}
    {generated : List (Node × Registration)}
    (hclosure : ((u.context env earlier).closure u.requested).result = .ok nodes)
    (hgenerated :
      (generateAll env (resolverOf nodes) u.fileName occasion 0 nodes).result = .ok generated) :
    ∀ g ∈ generated, g.1 ∈ nodes ∧ g.1.decision = .generate ∧
      g.2.Sound env (resolverOf nodes) g.1 ∧ g.2.name = g.1.qualifiedName := by
  intro g hg
  obtain ⟨hdistinct, hsound⟩ := WalkContext.closure_sound hclosure
  obtain ⟨hn, hd, stamp, hr⟩ := (generateAll_eq_ok hgenerated).2 g hg
  exact ⟨hn, hd, generate_sound (c := u.context env earlier) (hsound g.1 hn) hd hr,
    name_of_generateAll hdistinct hgenerated g hg⟩

theorem CompilationUnit.prepare_eq_ok (h : (u.prepare env earlier occasion).result = .ok p) :
    ∃ (nodes : List Node) (generated : List (Node × Registration)),
      ((u.context env earlier).closure u.requested).result = .ok nodes ∧
      p.registrations = generated.map (·.2) ∧
      generated.map (·.1) = nodes.filter (fun n ↦ n.decision matches .generate) ∧
      (∀ g ∈ generated, g.2.Sound env (resolverOf nodes) g.1) ∧
      ∀ g ∈ generated, g.2.name = g.1.qualifiedName := by
  obtain ⟨-, nodes, generated, hnodes, hgenerated, rfl⟩ := prepare_iff.1 h
  have hsound := generated_sound hnodes hgenerated
  exact ⟨nodes, generated, hnodes, rfl, (generateAll_eq_ok hgenerated).1,
    fun g hg ↦ (hsound g hg).2.2.1, fun g hg ↦ (hsound g hg).2.2.2⟩

variable {nodes : List Node} {generated : List (Node × Registration)} {file : SchemaFile}

/-- What is registered after a schema was registered was registered before or is new. -/
theorem Registry.get?_of_registered
    (hregister : (reg.registerSchema file (generated.map (·.2))).result = .ok reg') {t : TypeId}
    {e : Entry} (he : reg'.get? t = some e) :
    reg.get? t = some e ∨
      ∃ g ∈ generated, g.2.type = t ∧ e = { g.2 with file := some file.name } := by
  rcases get?_registerSchema hregister t with ⟨-, r, hr, ht, hget⟩ | hget
  · obtain ⟨g, hg, rfl⟩ := List.mem_map.1 hr
    exact .inr ⟨g, hg, ht, Option.some.inj (he.symm.trans hget)⟩
  · exact .inl (hget.symm.trans he)

theorem nodup_generated (hdistinct : (nodes.map (·.ref.type)).Nodup)
    (hmap : generated.map (·.1) = nodes.filter (fun n ↦ n.decision matches .generate))
    (hregs : ∀ g ∈ generated, g.2.Sound env resolve g.1) :
    ((generated.map (·.2)).map (·.type)).Nodup := by
  have heq : (generated.map (·.2)).map (·.type) = (generated.map (·.1)).map (·.ref.type) := by
    rw [List.map_map, List.map_map]
    exact List.map_congr_left fun g hg ↦ (hregs g hg).type
  rw [heq, hmap]
  exact hdistinct.sublist (List.filter_sublist.map _)

/-- A named type is generated, and then registered now, or imported, and then still registered. -/
theorem registers_of_names (hextends : reg.Extends earlier)
    (hclosure : ((u.context env earlier).closure u.requested).result = .ok nodes)
    (hmap : generated.map (·.1) = nodes.filter (fun n ↦ n.decision matches .generate))
    (hregs : ∀ g ∈ generated, g.2.Sound env (resolverOf nodes) g.1)
    (hnames : ∀ g ∈ generated, g.2.name = g.1.qualifiedName)
    (hregister : (reg.registerSchema file (generated.map (·.2))).result = .ok reg')
    (hsorts : ∀ t e, reg'.get? t = some e → e.descriptor.sort = e.marshaller.sort) (t : TypeId)
    (name : String) (sort : TypeSort) (ht : (resolverOf nodes).Names t name sort) :
    reg'.Registers t name sort := by
  obtain ⟨hdistinct, -⟩ := WalkContext.closure_sound hclosure
  obtain ⟨n, hn, rfl, hnamed⟩ := resolverOf_eq_some ht
  cases hnamed
  -- An imported type keeps the entry that it was imported from.
  have himported : ∀ e, n.decision = .imported e → earlier.get? n.ref.type = some e ∧
      e.name = n.qualifiedName ∧ e.descriptor.sort = n.sort := by
    intro e hd
    cases WalkContext.adds_of_closure hclosure n hn with
    | imported he =>
      cases hd
      exact ⟨(Option.filter_eq_some_iff.1 he).1, rfl, rfl⟩
    | generated _ _ => cases hd
  cases hd : n.decision with
  | imported e =>
    obtain ⟨he, hname, hsort⟩ := himported e hd
    have hget := Registry.extends_of_registerSchema hregister _ _ (hextends _ _ he)
    exact ⟨e, hget, hname, (hsorts _ _ hget).symm.trans hsort⟩
  | generate =>
    have hmem : n ∈ generated.map (·.1) := by
      rw [hmap]
      exact List.mem_filter.2 ⟨hn, by simp [hd]⟩
    obtain ⟨g, hg, rfl⟩ := List.mem_map.1 hmem
    obtain ⟨e, he, hsame⟩ := Registry.exists_entry_of_registerSchema hregister
      (nodup_generated hdistinct hmap hregs) (List.mem_map.2 ⟨g, hg, rfl⟩)
    have hget : reg'.get? g.1.ref.type = some e := (hregs g hg).type ▸ he
    exact ⟨e, hget, hsame.qualifiedName_eq.trans (hnames g hg),
      (hsorts _ _ hget).symm.trans (hsame.sort_eq.trans (hregs g hg).same)⟩

/-- **Committed layouts are described.** A message type that is registered after a unit was
committed was registered before, or has the layout of a description that the unit reached. -/
theorem Prepared.describes_of_commit (hprepare : (u.prepare env earlier occasion).result = .ok p)
    (hcommit : (p.commit reg).result = .ok reg') {t : TypeId} {m : MessageMarshaller}
    (hm : reg'.messageMarshaller? t = some m) :
    reg.messageMarshaller? t = some m ∨ ∃ ref : TypeRef, ref.type = t ∧ m.Describes env ref := by
  obtain ⟨nodes, generated, -, hp, -, hregs, -⟩ := CompilationUnit.prepare_eq_ok hprepare
  have hregister := mapError_eq_ok.1 hcommit
  rw [hp] at hregister
  obtain ⟨e, he, hmarshaller⟩ := Registry.messageMarshaller?_eq_some.1 hm
  rcases Registry.get?_of_registered hregister he with hold | ⟨g, hg, ht, rfl⟩
  · exact .inl (Registry.messageMarshaller?_eq_some.2 ⟨e, hold, hmarshaller⟩)
  · obtain ⟨info, message, hinfo, hmade⟩ := (hregs g hg).made m hmarshaller
    exact .inr ⟨g.1.ref, (hregs g hg).type.symm.trans ht, info, message, hinfo, hmade.kind,
      hmade.layout⟩

/-- **Committing keeps a registry closed.** -/
theorem Registry.Closed.commit (hreg : reg.Closed) (hextends : reg.Extends earlier)
    (hprepare : (u.prepare env earlier occasion).result = .ok p)
    (hcommit : (p.commit reg).result = .ok reg') : reg'.Closed := by
  obtain ⟨nodes, generated, hclosure, hp, hmap, hregs, hnames⟩ :=
    CompilationUnit.prepare_eq_ok hprepare
  have hregister := mapError_eq_ok.1 hcommit
  rw [hp] at hregister
  have hsorts : ∀ t e, reg'.get? t = some e → e.marshaller.type = t ∧
      e.descriptor.sort = e.marshaller.sort := by
    intro t e he
    rcases Registry.get?_of_registered hregister he with hold | ⟨g, hg, ht, rfl⟩
    · exact ⟨hreg.type t e hold, hreg.sort t e hold⟩
    · exact ⟨ht, (hregs g hg).sort⟩
  have hnamed := registers_of_names hextends hclosure hmap hregs hnames hregister
    fun t e he ↦ (hsorts t e he).2
  have hmessage : ∀ t m, reg'.messageMarshaller? t = some m →
      m.WellFormed ∧ ∀ p ∈ m.plans, p.element.Resolved reg' := by
    intro t m hm
    obtain ⟨e, he, hmarshaller⟩ := Registry.messageMarshaller?_eq_some.1 hm
    rcases Registry.get?_of_registered hregister he with hold | ⟨g, hg, -, rfl⟩
    · have hmold := Registry.messageMarshaller?_eq_some.2 ⟨e, hold, hmarshaller⟩
      exact ⟨hreg.wellFormed t m hmold, fun p hp ↦ (hreg.resolved t m hmold p hp).mono
        (Registry.extends_of_registerSchema hregister)⟩
    · obtain ⟨info, message, -, hmade⟩ := (hregs g hg).made m hmarshaller
      exact ⟨hmade.wellFormed, fun p hp ↦ ((hmade.refersTo p hp).mono hnamed).resolved⟩
  exact {
    type t e he := (hsorts t e he).1
    sort t e he := (hsorts t e he).2
    wellFormed t m hm := (hmessage t m hm).1
    resolved t m hm := (hmessage t m hm).2 }

end

/-! ## Where marshallers come from

A marshaller that is registered now was prepared by some unit, at whatever time, since entries are
not replaced. -/

/-- The message marshallers that compilation units prepare in an environment. -/
def MessageMarshaller.CompiledFrom (m : MessageMarshaller) (env : Environment) : Prop :=
  ∃ (u : CompilationUnit) (reg : Registry) (occasion : Nat) (p : Prepared) (r : Registration),
    (u.prepare env reg occasion).result = .ok p ∧ r ∈ p.registrations ∧ r.marshaller = .message m

/-- The message marshallers that compilation units prepare. -/
def MessageMarshaller.Compiled (m : MessageMarshaller) : Prop := ∃ env, m.CompiledFrom env

theorem MessageMarshaller.CompiledFrom.exists_madeOf {m : MessageMarshaller} {env : Environment}
    (h : m.CompiledFrom env) :
    ∃ (ref : TypeRef) (resolve : Resolver) (info : TypeInfo) (message : MessageInfo),
      ref.info? env = some info ∧ m.MadeOf env resolve info message := by
  obtain ⟨u, reg, occasion, p, r, hprepare, hr, hm⟩ := h
  obtain ⟨nodes, generated, -, hp, -, hregs, -⟩ := CompilationUnit.prepare_eq_ok hprepare
  rw [hp] at hr
  obtain ⟨g, hg, rfl⟩ := List.mem_map.1 hr
  obtain ⟨info, message, hinfo, hmade⟩ := (hregs g hg).made m hm
  exact ⟨g.1.ref, resolverOf nodes, info, message, hinfo, hmade⟩

theorem MessageMarshaller.Compiled.exists_madeOf {m : MessageMarshaller} (h : m.Compiled) :
    ∃ env resolve info message, m.MadeOf env resolve info message := by
  obtain ⟨env, h⟩ := h
  obtain ⟨ref, resolve, info, message, -, hmade⟩ := h.exists_madeOf
  exact ⟨env, resolve, info, message, hmade⟩

theorem MessageMarshaller.Compiled.wellFormed {m : MessageMarshaller} (h : m.Compiled) :
    m.WellFormed := by
  obtain ⟨env, resolve, info, message, hmade⟩ := h.exists_madeOf
  exact hmade.wellFormed

/-- A message type that is registered after a unit was committed was registered before, or the unit
prepared it. -/
theorem Prepared.compiledFrom_of_commit {u : CompilationUnit} {env : Environment}
    {earlier reg reg' : Registry} {occasion : Nat} {p : Prepared}
    (hprepare : (u.prepare env earlier occasion).result = .ok p)
    (hcommit : (p.commit reg).result = .ok reg') {t : TypeId} {m : MessageMarshaller}
    (hm : reg'.messageMarshaller? t = some m) :
    reg.messageMarshaller? t = some m ∨ m.CompiledFrom env := by
  obtain ⟨e, he, hmarshaller⟩ := Registry.messageMarshaller?_eq_some.1 hm
  rcases Registry.get?_registerSchema (mapError_eq_ok.1 hcommit) t with ⟨-, r, hr, -, hget⟩ | hget
  · rw [hget] at he
    cases he
    exact .inr ⟨u, earlier, occasion, p, r, hprepare, hr, hmarshaller⟩
  · exact .inl (Registry.messageMarshaller?_eq_some.2 ⟨e, hget.symm.trans he, hmarshaller⟩)

theorem Registry.Compiled.marshaller {reg : Registry} (h : reg.Compiled) {t : TypeId}
    {m : MessageMarshaller} (hm : reg.messageMarshaller? t = some m) : m.Compiled := by
  induction h with
  | empty => cases hm
  | @commit u env earlier reg reg' occasion p _ _ _ hprepare hcommit _ ih =>
    rcases Prepared.compiledFrom_of_commit hprepare hcommit hm with hold | hnew
    · exact ih hold
    · exact ⟨env, hnew⟩

/-- **Compiled registries are closed.** -/
theorem Registry.Compiled.closed {reg : Registry} (h : reg.Compiled) : reg.Closed := by
  induction h with
  | empty => exact closed_empty
  | commit _ _ hextends hprepare hcommit _ hreg => exact hreg.commit hextends hprepare hcommit

end ProtoSchema
