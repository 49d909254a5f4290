import ProtoSchema.Proofs.Building.Resolving
import ProtoSchema.Proofs.Compilation.Compiled
import ProtoSchema.Proofs.Compilation.Exact

/-!
# The walk reaches what building asks for

References are followed twice, once by the walk that collects a closure and once when a generated
type of it is built. That both find the same ones is what keeps type information from being missing
when it is needed: whatever building asks for was reached, so the closure names it, and what the
walk did not reach could have any name, or none, without making a difference.
-/

set_option autoImplicit false

namespace ProtoSchema

/-- A compilation fails because nothing is known about a type. -/
@[simp] def CompileError.IsMissing : CompileError → Prop
  | schema cause => cause.IsMissing
  | _ => False

/-- A compilation fails because a type is refused. -/
@[simp] def CompileError.IsSchema : CompileError → Prop
  | schema _ => True
  | _ => False

theorem CompileError.IsMissing.isSchema {e : CompileError} (h : e.IsMissing) : e.IsSchema := by
  cases e with
  | schema cause => trivial
  | reference cause | registration cause => exact h

/-- A closure has what a generated type of it is built from. -/
structure Node.Supplied (n : Node) (env : Environment) (nodes : List Node) (info : TypeInfo) :
    Prop where
  described : n.ref.info? env = some info
  /-- What the fields refer to is reached, those of flattened supertypes included. -/
  reached : ∀ ref, info.Refers env ref → ∃ n' ∈ nodes, n'.ref.type = ref.type
  /-- What is not reached is not asked for: its name makes no difference. -/
  asked : ∀ resolve resolve' : Resolver,
    (∀ n' ∈ nodes, resolve n'.ref.type = resolve' n'.ref.type) →
    build env resolve n.ref = build env resolve' n.ref
  /-- What a field of the built message refers to is reached, under the name that the field has. -/
  bound : ∀ built, (build env (resolverOf nodes) n.ref).result = .ok (.message built) →
    List.Forall₂ (fun f b ↦ (∃ s, f.type = .scalar s) ∨
      ∃ n' ∈ nodes, b.target = some n'.ref.type ∧ f.type.target? = some n'.qualifiedName)
      built.descriptor.fields built.bindings

namespace WalkContext

variable {c : WalkContext} {requested : List TypeRef} {nodes : List Node} {w : Walk}
  {ref : TypeRef} {bad : CompileError → Prop}

/-! ## Errors of the walk

Type information is asked for when a type that was reached is built, and not before. A walk only
finds that a reference leads nowhere. -/

theorem avoids_foldlM {reach : Walk → TypeRef → Logged CompileError Walk}
    (hreach : ∀ w ref, Avoids bad (reach w ref).result) (refs : List TypeRef) :
    Avoids bad (refs.foldlM reach w).result := by
  induction refs generalizing w with
  | nil => exact .ok w
  | cons ref rest ih =>
    rw [List.foldlM_cons, Logged.result_bind]
    exact (hreach w ref).bind fun w' _ ↦ ih

theorem avoids_addImport {e : Entry} : Avoids bad (c.addImport w ref e).result := by
  simp [addImport]

theorem avoids_withAdapter : Avoids CompileError.IsSchema
    ((withAdapter c.env ref).mapError CompileError.reference) := by
  rw [Avoids.mapError_iff]
  intro e _
  exact id

theorem avoids_request : Avoids CompileError.IsSchema (c.request w ref).result := by
  unfold request
  split
  · exact .ok w
  · split
    · exact avoids_addImport
    · rw [Logged.result_bind]
      exact avoids_withAdapter.bind fun _ _ ↦ .ok _

theorem avoids_reach {referrer : String} :
    Avoids CompileError.IsSchema (c.reach referrer w ref).result := by
  unfold reach
  split
  · exact .ok w
  · split
    · exact avoids_addImport
    · split
      · simp
      · rw [Logged.result_bind]
        refine avoids_withAdapter.bind fun _ _ ↦ ?_
        rw [Logged.result_bind]
        exact .ok _

theorem avoids_follow {fuel : Nat} : Avoids CompileError.IsSchema (c.follow fuel w).result := by
  induction fuel generalizing w with
  | zero => exact .ok w
  | succ fuel ih =>
    rw [follow]
    split
    · exact .ok w
    · rw [Logged.result_bind]
      exact (avoids_foldlM (fun _ _ ↦ avoids_reach) _).bind fun _ _ ↦ ih

theorem informed_checkNames {earlier : List Node} : Informed (c.checkNames earlier nodes) := by
  induction nodes generalizing earlier with
  | nil => exact .ok ()
  | cons n rest ih =>
    rw [checkNames]
    repeat' split
    all_goals simp [ih]

theorem informed_closure : Avoids CompileError.IsMissing (c.closure requested).result := by
  unfold closure
  rw [Logged.result_bind]
  have hrequested : Avoids CompileError.IsMissing (requested.foldlM c.request {}).result :=
    (avoids_foldlM (fun _ _ ↦ avoids_request) _).mono fun _ ↦ CompileError.IsMissing.isSchema
  refine hrequested.bind fun w _ ↦ ?_
  rw [Logged.result_bind]
  refine (avoids_follow.mono fun _ ↦ CompileError.IsMissing.isSchema).bind fun w' _ ↦ ?_
  rw [Logged.result_bind]
  exact Avoids.bind (Avoids.mapError_iff.2 informed_checkNames) fun _ _ ↦ .ok _

/-! ## What a closure supplies

Building goes through the members of a type and of the supertypes that it inlines, as the walk did.
Each type that it asks for is therefore in the closure, and generated there or imported. -/

theorem supplied_of_closure (h : (c.closure requested).result = .ok nodes) {n : Node}
    (hn : n ∈ nodes) (hd : n.decision = .generate) : ∃ info, n.Supplied c.env nodes info := by
  obtain ⟨hdistinct, hsound⟩ := closure_sound h
  have hexact := closure_exact_refers h
  have hgenerated := hsound n hn
  rw [Node.Sound, hd] at hgenerated
  obtain ⟨info, hinfo, -⟩ := hgenerated
  have hreached : ∀ ref, info.Refers c.env ref → ∃ n' ∈ nodes, n'.ref.type = ref.type := by
    intro ref href
    have hneeds := (hexact.types n.ref.type).1 ⟨n, hn, rfl⟩
    exact (hexact.types ref.type).2 (.referenced hneeds hn hd hinfo href)
  refine ⟨info, hinfo, hreached, ?_, ?_⟩
  · intro resolve resolve' hagree
    refine build_congr hinfo (hagree n hn) fun ref href ↦ ?_
    obtain ⟨n', hn', ht⟩ := hreached ref href
    rw [← ht]
    exact hagree n' hn'
  · intro built hbuilt
    have hmessage : built.Sound (resolverOf nodes) := by
      obtain ⟨resolved, -, ⟨message, b, -, heq, hb⟩ | ⟨variants, e, -, heq, -⟩⟩ :=
        build_eq_ok hinfo hbuilt
      · cases heq
        exact buildMessage_sound hb
      · cases heq
    refine List.forall₂_iff_zip.2 ⟨hmessage.length_eq, fun {f b} hfb ↦ ?_⟩
    have hrefers := (hmessage.fields f b hfb).2
    cases htype : f.type with
    | scalar s => exact .inl ⟨s, rfl⟩
    | enum name | message name =>
      rw [htype] at hrefers
      obtain ⟨t, ht, hname⟩ := hrefers
      obtain ⟨n', hn', rfl, heq⟩ := resolverOf_eq_some hname
      obtain ⟨rfl, -⟩ := Resolved.mk.inj heq
      exact .inr ⟨n', hn', ht, rfl⟩

theorem confined_generate (h : (c.closure requested).result = .ok nodes) {n : Node}
    (hn : n ∈ nodes) (hd : n.decision = .generate) {fileName : String} {stamp : Stamp} :
    Confined (generate c.env (resolverOf nodes) fileName stamp n).result := by
  obtain ⟨hdistinct, -⟩ := closure_sound h
  obtain ⟨info, hsupplied⟩ := supplied_of_closure h hn hd
  have hinfo := hsupplied.described
  have hnamed : ∀ n' ∈ nodes, (resolverOf nodes n'.ref.type).isSome = true := by
    intro n' hn'
    rw [resolverOf_of_mem hdistinct hn']
    rfl
  have hbuild : Confined (build c.env (resolverOf nodes) n.ref).result := by
    refine confined_build hinfo (hnamed n hn) fun ref href ↦ ?_
    obtain ⟨n', hn', ht⟩ := hsupplied.reached ref href
    rw [← ht]
    exact hnamed n' hn'
  unfold generate
  rw [hinfo]
  dsimp only
  rw [Logged.result_bind]
  refine hbuild.bind fun built hbuilt ↦ ?_
  have hcompile : Confined (compileMarshaller c.env info built) := by
    obtain ⟨resolved, -, ⟨message, b, hkind, rfl, hb⟩ | ⟨variants, e, -, rfl, -⟩⟩ :=
      build_eq_ok hinfo hbuilt
    · have hmessage : info.message? = some message := by
        rw [TypeInfo.message?, hkind]
      exact Avoids.map Marshaller.message (confined_compile hmessage (buildMessage_sound hb))
    · exact .ok _
  rw [Logged.result_bind]
  refine hcompile.bind fun marshaller _ ↦ ?_
  rw [Logged.result_bind]
  exact .ok _

theorem informed_generate (h : (c.closure requested).result = .ok nodes) {n : Node}
    (hn : n ∈ nodes) (hd : n.decision = .generate) {fileName : String} {stamp : Stamp} :
    Informed (generate c.env (resolverOf nodes) fileName stamp n).result :=
  (confined_generate h hn hd).informed

end WalkContext

theorem avoids_generateAll {bad : SchemaError → Prop} {env : Environment} {resolve : Resolver}
    {fileName : String} {occasion index : Nat} {nodes : List Node}
    (h : ∀ n ∈ nodes, n.decision = .generate →
      ∀ stamp, Avoids bad (generate env resolve fileName stamp n).result) :
    Avoids bad (generateAll env resolve fileName occasion index nodes).result := by
  induction nodes generalizing index with
  | nil => exact .ok []
  | cons n rest ih =>
    obtain ⟨hn, hrest⟩ := List.forall_mem_cons.1 h
    rw [generateAll]
    split
    · exact ih hrest
    · next hd =>
      rw [Logged.result_bind]
      refine (hn hd _).bind fun r _ ↦ ?_
      rw [Logged.result_bind]
      exact (ih hrest).bind fun _ _ ↦ .ok _

theorem informed_generateAll {env : Environment} {resolve : Resolver} {fileName : String}
    {occasion index : Nat} {nodes : List Node}
    (h : ∀ n ∈ nodes, n.decision = .generate →
      ∀ stamp, Informed (generate env resolve fileName stamp n).result) :
    Informed (generateAll env resolve fileName occasion index nodes).result :=
  avoids_generateAll h

theorem CompilationUnit.confined_check (u : CompilationUnit) : Confined u.check := by
  unfold check
  repeat' split
  all_goals simp

theorem CompilationUnit.informed_check (u : CompilationUnit) : Informed u.check :=
  u.confined_check.informed

/-- **Walk and build agree.** No unit fails for want of type information. What a closure comes to
supplies all its generated types: each is described, whatever building it asks for was reached, and
every field that is no scalar is bound to a type of the closure. -/
theorem CompilationUnit.prepare_supplied (u : CompilationUnit) (env : Environment)
    (registry : Registry) (occasion : Nat) :
    (∀ path, (u.prepare env registry occasion).result ≠ .error (.schema (.missingTypeInfo path))) ∧
    ∀ nodes, ((u.context env registry).closure u.requested).result = .ok nodes →
      ∀ n ∈ nodes, n.decision = .generate → ∃ info, n.Supplied env nodes info := by
  constructor
  · have hprepare : Avoids CompileError.IsMissing (u.prepare env registry occasion).result := by
      unfold prepare
      rw [Logged.result_bind]
      refine Avoids.bind (Avoids.mapError_iff.2 u.informed_check) fun _ _ ↦ ?_
      rw [Logged.result_bind]
      refine WalkContext.informed_closure.bind fun nodes hnodes ↦ ?_
      rw [Logged.result_bind]
      refine Avoids.bind (Avoids.mapError_iff.2 ?_) fun _ _ ↦ .ok _
      exact informed_generateAll fun n hn hd stamp ↦ WalkContext.informed_generate hnodes hn hd
    intro path h
    exact hprepare _ h trivial
  · intro nodes hnodes n hn hd
    exact WalkContext.supplied_of_closure hnodes hn hd

namespace Harbour

def flag : TypeId := ⟨"harbour::Flag"⟩

def sailor : TypeId := ⟨"harbour::Sailor"⟩

def vessel : TypeId := ⟨"harbour::Vessel"⟩

def ship : TypeId := ⟨"harbour::Ship"⟩

/-- Ships inherit the crew of vessels and fly flags. -/
def environment : Environment :=
  [{ type := flag, path := flag.name, kind := .enum [{ name := "Blue", number := 0 }] },
    .storing sailor
      [({ name := "ship", kind := .field (.optional (.message (.of ship))), getter := ·
          number := some 1 })],
    .storing vessel
      [({ name := "crew", kind := .field (.map (.scalar .string) (.message (.of sailor)))
          getter := ·, number := some 1 })],
    .storing ship
      [({ name := "vessel", kind := .flatten (.of vessel), getter := · }),
        ({ name := "flags", kind := .field (.repeated (.enum (.of flag) true)), getter := ·
           number := some 2 })]]

def unit : CompilationUnit := { fileName := "ship.proto", requested := [.of ship] }

end Harbour

/-- Building a ship finds the sailors of its vessel and its flags. -/
theorem Harbour.prepare_supplied_ship : ∃ nodes p n info,
    ((unit.context environment .empty).closure unit.requested).result = .ok nodes ∧
    nodes.map (·.ref.type) = [ship, sailor, flag] ∧
    (unit.prepare environment .empty 0).result = .ok p ∧
    n ∈ nodes ∧ n.ref.type = ship ∧ n.Supplied environment nodes info := by
  have hcloses : ((unit.context environment .empty).closure unit.requested).result.toOption.map
      (fun nodes ↦ nodes.map fun n ↦ (n.ref.type, n.isGenerated)) =
        some [(ship, true), (sailor, true), (flag, true)] := by
    decide +kernel
  have hprepares : (unit.prepare environment .empty 0).result.toOption.isSome = true := by
    decide +kernel
  obtain ⟨nodes, hnodes, htypes⟩ := Option.map_eq_some_iff.1 hcloses
  obtain ⟨p, hp⟩ := Option.isSome_iff_exists.1 hprepares
  have hnodes := toOption_eq_some.1 hnodes
  have hship : (ship, true) ∈ nodes.map fun n ↦ (n.ref.type, n.isGenerated) := by
    rw [htypes]
    exact List.mem_cons_self
  obtain ⟨n, hn, hpair⟩ := List.mem_map.1 hship
  obtain ⟨ht, hd⟩ := Prod.mk.inj hpair
  obtain ⟨-, hsupplied⟩ := CompilationUnit.prepare_supplied unit environment .empty 0
  obtain ⟨info, hinfo⟩ := hsupplied nodes hnodes n hn (Node.isGenerated_iff.1 hd)
  have hall := congrArg (List.map Prod.fst) htypes
  rw [List.map_map] at hall
  exact ⟨nodes, p, n, info, hnodes, hall, toOption_eq_some.1 hp, hn, ht, hinfo⟩

end ProtoSchema
