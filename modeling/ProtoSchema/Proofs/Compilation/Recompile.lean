import ProtoSchema.Proofs.Codec.Storing
import ProtoSchema.Proofs.Compilation.Session
import ProtoSchema.Proofs.Registry.Repeat

/-!
# Compiling a unit again

A unit may be compiled again on the registry that it left. What it generated the first time is now
registered, but for the unit's own file, so it is generated again and not imported, and what it
imported is still there. The closure is the same, and so is all that is built of it, up to the
objects that are made anew. Registering it changes nothing: each descriptor equals the one that is
registered, and the file equals the one of its name. Both would fail for a default that is no
number, since such a default does not equal itself.
-/

set_option autoImplicit false

namespace ProtoSchema

/-! ## The closure

The walk asks the registry in one place only, when it looks for a type that it might import. Two
registries that have the same to import lead it the same way. -/

namespace WalkContext

variable {c : WalkContext} {r : Registry}

section

variable (himportable : ∀ t, { c with registry := r : WalkContext }.importable? t = c.importable? t)
include himportable

theorem request_congr : { c with registry := r : WalkContext }.request = c.request := by
  funext w ref
  unfold request addImport addGenerated
  rw [himportable]

theorem reach_congr : { c with registry := r : WalkContext }.reach = c.reach := by
  funext referrer w ref
  unfold reach addImport addGenerated
  rw [himportable]

theorem follow_congr (fuel : Nat) (w : Walk) :
    { c with registry := r : WalkContext }.follow fuel w = c.follow fuel w := by
  induction fuel generalizing w with
  | zero => rfl
  | succ fuel ih =>
    rw [follow, follow, reach_congr himportable]
    simp only [ih]

end

theorem closure_congr (himportable : ∀ t,
      { c with registry := r : WalkContext }.importable? t = c.importable? t)
    {requested : List TypeRef} {nodes : List Node}
    (h : (c.closure requested).result = .ok nodes)
    (hnames : c.NamesFit [] nodes → { c with registry := r : WalkContext }.NamesFit [] nodes) :
    ({ c with registry := r : WalkContext }.closure requested).result = .ok nodes := by
  obtain ⟨w, w', hw, hw', hfit, rfl⟩ := closure_eq_ok.1 h
  -- The check of names is the one step that looks at other entries than those to import.
  refine closure_eq_ok.2 ⟨w, w', ?_, ?_, hnames hfit, rfl⟩
  · rw [request_congr himportable]
    exact hw
  · rw [follow_congr himportable]
    exact hw'

end WalkContext

/-! ## What is built -/

section

variable {env : Environment} {resolve : Resolver} {fileName : String} {n : Node}

/-- The registrations of a type that is built again: all but the stamps is the same. -/
structure Registration.Remade (r r' : Registration) : Prop where
  descriptor : r'.descriptor = r.descriptor
  marshaller : r'.marshaller = r.marshaller

theorem Registration.Remade.repeats {r r' : Registration} (h : r.Remade r') : r.Repeats r' :=
  ⟨congrArg Marshaller.type h.marshaller, .inl h.descriptor.symm⟩

theorem generate_again {stamp : Stamp} {r : Registration}
    (h : (generate env resolve fileName stamp n).result = .ok r) (stamp' : Stamp) :
    ∃ r', (generate env resolve fileName stamp' n).result = .ok r' ∧ r.Remade r' := by
  unfold generate at h ⊢
  split at h
  · obtain ⟨built, hbuilt, h⟩ := Logged.bind_eq_ok.1 h
    obtain ⟨marshaller, hm, h⟩ := Logged.bind_eq_ok.1 h
    obtain ⟨_, hnote, h⟩ := Logged.bind_eq_ok.1 h
    cases h
    exact ⟨⟨built.descriptor, stamp', marshaller, stamp'⟩, Logged.bind_eq_ok.2 ⟨built, hbuilt,
      Logged.bind_eq_ok.2 ⟨marshaller, hm, Logged.bind_eq_ok.2 ⟨_, hnote, rfl⟩⟩⟩, rfl, rfl⟩
  · cases h

theorem generateAll_again {occasion index : Nat} {nodes : List Node}
    {generated : List (Node × Registration)}
    (h : (generateAll env resolve fileName occasion index nodes).result = .ok generated)
    (occasion' : Nat) :
    ∃ generated', (generateAll env resolve fileName occasion' index nodes).result = .ok generated' ∧
      List.Forall₂ (fun g g' ↦ g'.1 = g.1 ∧ g.2.Remade g'.2) generated generated' := by
  induction nodes generalizing index generated with
  | nil =>
    cases h
    exact ⟨[], rfl, .nil⟩
  | cons n rest ih =>
    rw [generateAll] at h
    rw [generateAll]
    split at h
    · exact ih h
    · obtain ⟨r, hr, h⟩ := Logged.bind_eq_ok.1 h
      obtain ⟨gs, hgs, h⟩ := Logged.bind_eq_ok.1 h
      cases h
      obtain ⟨r', hr', hremade⟩ := generate_again hr ⟨occasion', index⟩
      obtain ⟨gs', hgs', hall⟩ := ih hgs
      exact ⟨(n, r') :: gs', Logged.bind_eq_ok.2 ⟨r', hr', Logged.bind_eq_ok.2 ⟨gs', hgs', rfl⟩⟩,
        .cons ⟨rfl, hremade⟩ hall⟩

end

/-! ## Compiling again

What is generated again equals what is registered, with a stamp of its own. Registering it therefore
changes nothing, and neither does registering the file. -/

/-- What a unit gives for a type when it is compiled again: an imported entry is the very same, a
generated one is made anew. -/
inductive SchemaEntry.Again : SchemaEntry → SchemaEntry → Prop
  | generated {r r' : Registration} (h : r.Remade r') (owner : TypeRef)
      (generator : Option String) :
      Again (.generated r owner generator) (.generated r' owner generator)
  | imported (e : Entry) : Again (.imported e) (.imported e)

section

variable {u : CompilationUnit} {env : Environment} {r r₁ : Registry} {nodes : List Node}
  {generated : List (Node × Registration)}

theorem importable?_of_commit (hcommit : ((u.prepared nodes generated).commit r).result = .ok r₁)
    (t : TypeId) : (u.context env r₁).importable? t = (u.context env r).importable? t := by
  unfold WalkContext.importable? CompilationUnit.context
  dsimp only
  rcases Registry.get?_registerSchema (mapError_eq_ok.1 hcommit) t with
    ⟨hfree, reg, -, -, hnew⟩ | heq
  · rw [hfree, hnew]
    simp [CompilationUnit.prepared]
  · rw [heq]

theorem namesFit_of_commit (hr : r.Bijective) (hr₁ : r₁.Bijective)
    (hcommit : ((u.prepared nodes generated).commit r).result = .ok r₁)
    (hgenerated : ∀ g ∈ generated, g.1 ∈ nodes ∧ g.2.type = g.1.ref.type ∧
      g.2.name = g.1.qualifiedName)
    (h : (u.context env r).NamesFit [] nodes) : (u.context env r₁).NamesFit [] nodes := by
  refine ⟨h.fresh, h.distinct, fun n hn hd e he ↦ ?_⟩
  obtain ⟨he, hname⟩ := hr₁.named?_eq_some.1 he
  rcases Registry.get?_of_registered (mapError_eq_ok.1 hcommit) he with hold | ⟨g, hg, -, rfl⟩
  · exact h.own n hn hd e (hr.named?_eq_some.2 ⟨hold, hname⟩)
  · obtain ⟨hmem, htype, hgname⟩ := hgenerated g hg
    have hsame : g.1.qualifiedName = n.qualifiedName := hgname.symm.trans hname
    rw [← List.inj_on_of_nodup_map h.distinct hmem hn hsame]
    exact htype

section

variable {generated' : List (Node × Registration)}
  (hall : List.Forall₂ (fun g g' ↦ g'.1 = g.1 ∧ g.2.Remade g'.2) generated generated')
include hall

theorem CompilationUnit.file_prepared_again :
    (u.prepared nodes generated').file = (u.prepared nodes generated).file := by
  have htypes : generated'.map (fun g ↦ g.2.descriptor) = generated.map fun g ↦ g.2.descriptor := by
    rw [← List.forall₂_eq_eq_eq, List.forall₂_map_left_iff, List.forall₂_map_right_iff]
    exact hall.flip.imp fun _ _ h ↦ h.2.descriptor
  unfold prepared
  dsimp only
  rw [htypes]

theorem CompilationUnit.entries_prepared_again :
    List.Forall₂ SchemaEntry.Again (u.prepared nodes generated).entries
      (u.prepared nodes generated').entries := by
  refine List.rel_append ?_ ?_
  · rw [List.forall₂_map_left_iff, List.forall₂_map_right_iff]
    refine hall.imp fun g g' hg ↦ ?_
    dsimp only
    rw [hg.1]
    exact .generated hg.2 _ _
  · rw [List.forall₂_map_left_iff, List.forall₂_map_right_iff]
    exact List.forall₂_same.2 fun e _ ↦ .imported e

theorem CompilationUnit.commit_again
    (hcommit : ((u.prepared nodes generated).commit r).result = .ok r₁)
    (hdistinct : ((u.prepared nodes generated).registrations.map (·.type)).Nodup)
    (hnan : (u.prepared nodes generated).file.hasNaN = false) :
    ((u.prepared nodes generated').commit r₁).result = .ok r₁ := by
  have hrepeats : List.Forall₂ Registration.Repeats (u.prepared nodes generated).registrations
      (u.prepared nodes generated').registrations := by
    rw [prepared, prepared, List.forall₂_map_left_iff, List.forall₂_map_right_iff]
    exact hall.imp fun _ _ h ↦ h.2.repeats
  have hagain := Registry.registerSchema_again (mapError_eq_ok.1 hcommit) types_prepared hdistinct
    (.inl rfl) hrepeats
  rw [hnan] at hagain
  rw [Prepared.commit, file_prepared_again hall]
  exact mapError_eq_ok.2 hagain

end

theorem CompilationUnit.compile_again {occasion : Nat} {p : Prepared} (hr : r.Bijective)
    (h : (u.compile env r occasion).result = .ok (p, r₁)) (hnan : p.file.hasNaN = false)
    (occasion' : Nat) :
    ∃ p', (u.compile env r₁ occasion').result = .ok (p', r₁) ∧ p'.file = p.file ∧
      (p'.file == p.file) = true ∧ List.Forall₂ SchemaEntry.Again p.entries p'.entries := by
  obtain ⟨hprepare, hcommit⟩ := compile_eq_ok.1 h
  have hdistinct := nodup_registrations hprepare
  obtain ⟨hcheck, nodes, generated, hclosure, hgenerated, rfl⟩ := prepare_iff.1 hprepare
  have hr₁ := hr.commit hdistinct hcommit
  have hsound := generated_sound hclosure hgenerated
  -- The second walk decides as the first, and what is built of it differs in stamps only.
  have hclosure' : ((u.context env r₁).closure u.requested).result = .ok nodes :=
    WalkContext.closure_congr (importable?_of_commit hcommit) hclosure
      (namesFit_of_commit hr hr₁ hcommit fun g hg ↦
        ⟨(hsound g hg).1, (hsound g hg).2.2.1.type, (hsound g hg).2.2.2⟩)
  obtain ⟨generated', hgenerated', hall⟩ := generateAll_again hgenerated occasion'
  have hprepare' := prepare_iff.2 ⟨hcheck, nodes, generated', hclosure', hgenerated', rfl⟩
  have hfile : (u.prepared nodes generated').file = (u.prepared nodes generated).file :=
    file_prepared_again hall
  refine ⟨_, compile_eq_ok.2 ⟨hprepare', commit_again hall hcommit hdistinct hnan⟩, hfile, ?_,
    entries_prepared_again hall⟩
  rw [hfile, SchemaFile.beq_self, hnan, Bool.not_false]

end

/-- **Compiling a unit again changes nothing**, whatever was done with an empty registry before: it
succeeds on the registry that the unit left, which it leaves as it is, with an equal file and the
same entries in the same order. -/
theorem Session.recompile_run (actions : List Action) {u : CompilationUnit} {env : Environment}
    {occasion : Nat} {p : Prepared} {r : Registry}
    (h : (u.compile env (run actions).registry occasion).result = .ok (p, r))
    (hnan : p.file.hasNaN = false) (occasion' : Nat) :
    ∃ p', (u.compile env r occasion').result = .ok (p', r) ∧ p'.file = p.file ∧
      (p'.file == p.file) = true ∧ List.Forall₂ SchemaEntry.Again p.entries p'.entries :=
  CompilationUnit.compile_again (sound_run actions).registry h hnan occasion'

namespace Lamp

def shade : TypeId := ⟨"lamp::Shade"⟩

def lamp : TypeId := ⟨"lamp::Lamp"⟩

/-- An enum, and a message that refers to it and whose brightness is one half by default. -/
def environment : Environment :=
  [{ type := shade, path := shade.name, kind := .enum [{ name := "Plain", number := 0 }] },
    .storing lamp
      [({ name := "shade", kind := .field (.optional (.enum (.of shade) true)), getter := ·
          number := some 1 }),
        ({ name := "brightness", kind := .field (.optional (.scalar .double)), getter := ·
           number := some 2, default := some (.float ⟨0x3FE0000000000000⟩) })]]

/-- The enum is registered before the message. -/
def actions : List Session.Action :=
  [.compile { fileName := "shade.proto", requested := [.of shade] } environment 0]

def unit : CompilationUnit := { fileName := "lamp.proto", requested := [.of lamp] }

end Lamp

/-- The unit of the message imports the enum, also when it is compiled again. -/
theorem Lamp.recompile_run_unit : ∃ p r p',
    (unit.compile environment (Session.run actions).registry 1).result = .ok (p, r) ∧
      p.file.hasNaN = false ∧ p.file.imports = ["shade.proto"] ∧
      (unit.compile environment r 2).result = .ok (p', r) ∧ p'.file = p.file ∧
      (p'.file == p.file) = true ∧ List.Forall₂ SchemaEntry.Again p.entries p'.entries := by
  have hcompiles : (unit.compile environment (Session.run actions).registry 1).result.toOption.map
      (fun (p, _) ↦ (p.file.hasNaN, p.file.imports)) = some (false, ["shade.proto"]) := by
    decide +kernel
  obtain ⟨⟨p, r⟩, hcompile, hfile⟩ := Option.map_eq_some_iff.1 hcompiles
  obtain ⟨hnan, himports⟩ := Prod.mk.inj hfile
  have hcompile := toOption_eq_some.1 hcompile
  obtain ⟨p', hagain⟩ := Session.recompile_run actions hcompile hnan 2
  exact ⟨p, r, p', hcompile, hnan, himports, hagain⟩

end ProtoSchema
