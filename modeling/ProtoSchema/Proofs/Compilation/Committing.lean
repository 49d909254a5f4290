import ProtoSchema.Proofs.Codec.Storing
import ProtoSchema.Proofs.Compilation.Defining

/-!
# Committing what was prepared

A unit looks for collisions when it is prepared, and the registry looks for them again when the unit
is committed. The two look at different things. The walk asks only whether a name that it gives to a
generated type is bound to another type; a type that the unit's own file registered earlier is
generated again without looking at what is registered. The registry compares descriptors, and
refuses a type that is bound to a description other than the new one.

What makes the first look enough is that a registry is `Recorded`: an entry that came with a file is
among the types of that file. Suppose that the unit's file does not clash with one that is there.
Then a type that is generated again has its entry in an equal file, so the unit generates a type
with an equal description, and that is the type itself, since names are bound to one type only. So
on the registry that it was prepared against, a unit can fail for its file and for nothing else.
-/

set_option autoImplicit false

namespace ProtoSchema

/-- The entries that came with a file are among the types of the file. -/
def Registry.Recorded (r : Registry) : Prop :=
  ∀ t e name, r.get? t = some e → e.file = some name →
    ∃ f, r.file? name = some f ∧ e.descriptor ∈ f.types

namespace Registry

variable {r r' : Registry} {p : Prepared}

theorem recorded_empty : empty.Recorded := fun _ _ _ h ↦ by cases h

theorem Recorded.register (h : r.Recorded) {reg : Registration}
    (hreg : (r.register reg).result = .ok r') : r'.Recorded := by
  rcases register_eq_ok hreg with ⟨-, rfl⟩ | ⟨-, rfl⟩
  · intro t e name he hname
    rw [get?_insert] at he
    split at he
    · rw [← Option.some.inj he] at hname
      cases hname
    · exact h t e name he hname
  · exact h

/-- Nothing is bound when a file is registered that is there already: the names that it defines are
bound, so none of its registrations is for a free type. -/
theorem file?_eq_none_of_fresh (hfiles : r.FilesNamed)
    (htypes : p.file.types = p.registrations.map (·.descriptor))
    (hcommit : (p.commit r).result = .ok r') {reg : Registration} (hreg : reg ∈ p.registrations)
    (hfree : r.get? reg.type = none) : r.file? p.file.name = none := by
  obtain ⟨haccepts, files, hwith, -⟩ := registerSchema_eq_ok.1 (mapError_eq_ok.1 hcommit)
  rcases filesWith_eq_some.1 hwith with ⟨existing, hfile, hsame, -⟩ | ⟨hnone, -⟩
  · exfalso
    have hnames := (SchemaFile.names_eq_of_beq hsame).2
    have hdefines : reg.name ∈ existing.types.map (·.qualifiedName) := by
      rw [hnames, htypes, List.map_map]
      exact List.mem_map.2 ⟨reg, hreg, rfl⟩
    obtain ⟨d, hd, hname⟩ := List.mem_map.1 hdefines
    obtain ⟨e, he⟩ := hfiles.bound existing (List.mem_of_find?_eq_some hfile) d hd
    have hnew := haccepts.checked reg hreg
    rw [contains_eq_false.2 hfree] at hnew
    have hunbound := (isNew_eq_true.1 hnew).2
    rw [← hname, he] at hunbound
    cases hunbound
  · exact hnone

theorem Recorded.commit (h : r.Recorded) (hfiles : r.FilesNamed)
    (htypes : p.file.types = p.registrations.map (·.descriptor))
    (hcommit : (p.commit r).result = .ok r') : r'.Recorded := by
  intro t e name he hname
  have hregister := mapError_eq_ok.1 hcommit
  have hfilesWith : ∃ files, r.filesWith p.file = some files ∧ r'.files = files := by
    obtain ⟨-, files, hwith, rfl⟩ := registerSchema_eq_ok.1 hregister
    exact ⟨files, hwith, rfl⟩
  obtain ⟨files, hwith, hr'⟩ := hfilesWith
  rcases get?_registerSchema hregister t with ⟨hfree, reg, hreg, ht, hnew⟩ | hold
  · have hnone := file?_eq_none_of_fresh hfiles htypes hcommit hreg (ht ▸ hfree)
    have hadded : files = r.files ++ [p.file] := by
      rcases filesWith_eq_some.1 hwith with ⟨_, hfile, -⟩ | ⟨-, hadded⟩
      · rw [hnone] at hfile
        cases hfile
      · exact hadded
    rw [he] at hnew
    obtain rfl := Option.some.inj hnew
    obtain rfl : p.file.name = name := Option.some.inj hname
    refine ⟨p.file, ?_, ?_⟩
    · rw [file?, hr', hadded, List.find?_append,
        show r.files.find? (·.name == p.file.name) = none from hnone]
      simp
    · rw [htypes]
      exact List.mem_map.2 ⟨reg, hreg, rfl⟩
  · rw [he] at hold
    obtain ⟨f, hf, hmem⟩ := h t e name hold.symm hname
    refine ⟨f, ?_, hmem⟩
    rw [file?, hr']
    exact file?_of_filesWith hwith hf

end Registry

/-! ## A unit on the registry that it was prepared against

Registering the types of a unit can fail in two ways: another type bears the name, or the type is
bound to another description. The walk has looked for the first one, and the second one is excluded
by the files. -/

namespace CompilationUnit

variable {u : CompilationUnit} {env : Environment} {r : Registry} {occasion : Nat} {p : Prepared}

theorem name_of_prepare (h : (u.prepare env r occasion).result = .ok p) :
    p.file.name = u.fileName := by
  obtain ⟨-, nodes, generated, -, -, rfl⟩ := prepare_iff.1 h
  rfl

/-- The names of what a unit registers are borne by one type each, in the unit and in the
registry. -/
theorem names_of_prepare (h : (u.prepare env r occasion).result = .ok p) :
    (∀ reg ∈ p.registrations, ∀ reg' ∈ p.registrations, reg.name = reg'.name →
      reg.type = reg'.type) ∧
    ∀ reg ∈ p.registrations, ∀ e, r.named? reg.name = some e → e.type = reg.type := by
  obtain ⟨-, nodes, generated, hclosure, hgenerated, rfl⟩ := prepare_iff.1 h
  have hsound := generated_sound hclosure hgenerated
  have hfit : (u.context env r).NamesFit [] nodes := by
    obtain ⟨w, w', -, -, hfit, rfl⟩ := WalkContext.closure_eq_ok.1 hclosure
    exact hfit
  constructor
  · intro reg hreg reg' hreg' hname
    obtain ⟨g, hg, rfl⟩ := List.mem_map.1 hreg
    obtain ⟨g', hg', rfl⟩ := List.mem_map.1 hreg'
    obtain ⟨hn, -, hmade, hgname⟩ := hsound g hg
    obtain ⟨hn', -, hmade', hgname'⟩ := hsound g' hg'
    have hnode : g.1 = g'.1 :=
      List.inj_on_of_nodup_map hfit.distinct hn hn' (hgname.symm.trans (hname.trans hgname'))
    exact hmade.type.trans (hnode ▸ hmade'.type.symm)
  · intro reg hreg e he
    obtain ⟨g, hg, rfl⟩ := List.mem_map.1 hreg
    obtain ⟨hn, hd, hmade, hgname⟩ := hsound g hg
    rw [hgname] at he
    exact (hfit.own g.1 hn hd e he).trans hmade.type.symm

/-- A type of the unit that is bound is bound to the description that the unit has for it. -/
theorem descriptor_of_prepare (hr : r.Bijective) (hrecorded : r.Recorded)
    (h : (u.prepare env r occasion).result = .ok p) (hfile : ¬r.HoldsOther p.file)
    {reg : Registration} (hreg : reg ∈ p.registrations) {e : Entry}
    (he : r.get? reg.type = some e) : (e.descriptor == reg.descriptor) = true := by
  obtain ⟨f, hf, hmem⟩ := hrecorded _ e _ he (undisputed_of_prepare h reg hreg e he)
  have hsame : (f == p.file) = true := by
    by_contra hother
    exact hfile ⟨f, hf, Bool.eq_false_iff.2 hother⟩
  -- The unit generates a type with an equal description, which is the type itself.
  obtain ⟨d, hd, hequal⟩ := exists_of_forall₂_left (SchemaFile.types_of_beq hsame).2 hmem
  rw [types_of_prepare h] at hd
  obtain ⟨reg', hreg', rfl⟩ := List.mem_map.1 hd
  have htype : e.type = reg.type := hr.type _ e he
  have hnamed : r.named? reg'.name = some e := by
    rw [hr.named?_eq_some, htype]
    exact ⟨he, Descriptor.qualifiedName_eq_of_beq hequal⟩
  have htype' := (names_of_prepare h).2 reg' hreg' e hnamed
  obtain rfl : reg' = reg := List.inj_on_of_nodup_map (nodup_registrations h) hreg' hreg
    (htype'.symm.trans htype)
  exact hequal

theorem accepts_of_prepare (hr : r.Bijective) (hrecorded : r.Recorded)
    (h : (u.prepare env r occasion).result = .ok p) (hfile : ¬r.HoldsOther p.file) :
    r.Accepts p.registrations := by
  refine ⟨fun reg hreg ↦ ?_, (names_of_prepare h).1⟩
  cases he : r.get? reg.type with
  | some e =>
    rw [Registry.contains, he, Option.isSome_some, Bool.not_true, Registry.isNew_eq_false]
    exact ⟨e, he, descriptor_of_prepare hr hrecorded h hfile hreg he⟩
  | none =>
    rw [Registry.contains_eq_false.2 he, Bool.not_false, Registry.isNew_eq_true]
    refine ⟨he, Option.eq_none_iff_forall_ne_some.2 fun e hnamed ↦ ?_⟩
    -- A name that is bound is bound to the type of the registration, which is free.
    have htype := (names_of_prepare h).2 reg hreg e hnamed
    have hbound := (hr.named?_eq_some.1 hnamed).1
    rw [htype, he] at hbound
    cases hbound

/-- **A unit can be committed to the registry that it was prepared against**, unless that holds
another file of its name. -/
theorem commit_of_prepare (hr : r.Bijective) (hrecorded : r.Recorded)
    (h : (u.prepare env r occasion).result = .ok p) (hfile : ¬r.HoldsOther p.file) :
    ∃ r', (p.commit r).result = .ok r' := by
  cases hwith : r.filesWith p.file with
  | none => exact absurd (Registry.filesWith_eq_none.1 hwith) hfile
  | some files =>
    have haccepts := accepts_of_prepare hr hrecorded h hfile
    exact ⟨_, mapError_eq_ok.2 (Registry.registerSchema_eq_ok.2 ⟨haccepts, files, hwith, rfl⟩)⟩

end CompilationUnit

/-! ## At work on one registry -/

namespace Session

variable {s s' : Session}

theorem recorded_of_outcome {action : Action} (hs : s.Filed) (h : s.registry.Recorded)
    (houtcome : s.Outcome action s') : s'.registry.Recorded := by
  cases houtcome with
  | failed | prepared | refused => exact h
  | registered hr => exact h.register hr
  | committed hp hr => exact h.commit hs.files (hs.prepared _ (List.mem_of_getElem? hp)) hr
  | compiled hprepare hcommit =>
    exact h.commit hs.files (CompilationUnit.types_of_prepare hprepare) hcommit

theorem recorded_run (actions : List Action) : (run actions).registry.Recorded := by
  have hboth : (run actions).Filed ∧ (run actions).registry.Recorded :=
    foldl_induction (I := fun s ↦ s.Filed ∧ s.registry.Recorded)
      (fun _ _ _ _ hs houtcome ↦
        ⟨hs.1.of_outcome houtcome, recorded_of_outcome hs.1 hs.2 houtcome⟩)
      ⟨filed_run [], Registry.recorded_empty⟩
  exact hboth.2

/-- **What was prepared can be committed.** Whatever was done with an empty registry, a unit that is
prepared against what came of it and then committed to the same registry is refused exactly if that
holds another file of the unit's name, and then for that reason. -/
theorem commit_prepared_run (actions : List Action) {u : CompilationUnit} {env : Environment}
    {occasion : Nat} {p : Prepared}
    (h : (u.prepare env (run actions).registry occasion).result = .ok p) :
    ((∃ r, (p.commit (run actions).registry).result = .ok r) ↔
      ¬(run actions).registry.HoldsOther p.file) ∧
    ∀ e, (p.commit (run actions).registry).result = .error e ↔
      e = .registration (.fileConflict u.fileName) ∧
        (run actions).registry.HoldsOther p.file := by
  have hcommits := CompilationUnit.commit_of_prepare (sound_run actions).registry
    (recorded_run actions) h
  have hrefused : (run actions).registry.HoldsOther p.file →
      (p.commit (run actions).registry).result =
        .error (.registration (.fileConflict u.fileName)) := by
    intro hother
    rw [Prepared.commit, Logged.result_mapError, Registry.registerSchema_of_holdsOther hother,
      mapError_error, CompilationUnit.name_of_prepare h]
  by_cases hother : (run actions).registry.HoldsOther p.file
  · rw [hrefused hother]
    simp [hother, eq_comm]
  · obtain ⟨r, hr⟩ := hcommits hother
    rw [hr]
    simp [hother]

end Session

namespace Desk

def colour : TypeId := ⟨"desk::Colour"⟩

def desk : TypeId := ⟨"desk::Desk"⟩

/-- An enum, and a message that refers to it. -/
def environment : Environment :=
  [{ type := colour, path := colour.name, kind := .enum [{ name := "Oak", number := 0 }] },
    .storing desk
      [({ name := "colour", kind := .field (.optional (.enum (.of colour) true)), getter := ·
          number := some 1 })]]

def unit (requested : List TypeRef) : CompilationUnit := { fileName := "desk.proto", requested }

/-- The file with both types is registered. -/
def actions : List Session.Action := [.compile (unit [.of desk]) environment 0]

end Desk

/-- The same types in one file again are generated again and committed, while a file with the enum
alone is refused. -/
theorem Desk.commit_prepared_run_units : ∃ p q,
    ((unit [.of desk]).prepare environment (Session.run actions).registry 1).result = .ok p ∧
    p.registrations.length = 2 ∧ (∃ r, (p.commit (Session.run actions).registry).result = .ok r) ∧
    ((unit [.of colour]).prepare environment (Session.run actions).registry 2).result = .ok q ∧
    (q.commit (Session.run actions).registry).result =
      .error (.registration (.fileConflict "desk.proto")) := by
  have hprepare : ((unit [.of desk]).prepare environment
      (Session.run actions).registry 1).result.toOption.map (fun p ↦ (p.registrations.length,
        ((Session.run actions).registry.filesWith p.file).isSome)) = some (2, true) := by
    decide +kernel
  have hprepare' : ((unit [.of colour]).prepare environment
      (Session.run actions).registry 2).result.toOption.map
        (fun q ↦ ((Session.run actions).registry.filesWith q.file).isSome) = some false := by
    decide +kernel
  obtain ⟨p, hp, heq⟩ := Option.map_eq_some_iff.1 hprepare
  obtain ⟨q, hq, hnone⟩ := Option.map_eq_some_iff.1 hprepare'
  obtain ⟨hlength, hsome⟩ := Prod.mk.inj heq
  have hp := toOption_eq_some.1 hp
  have hq := toOption_eq_some.1 hq
  have hfits : ¬(Session.run actions).registry.HoldsOther p.file := fun hother ↦ by
    rw [Registry.filesWith_eq_none.2 hother] at hsome
    cases hsome
  have hother : (Session.run actions).registry.HoldsOther q.file :=
    Registry.filesWith_eq_none.1 (Option.isNone_iff_eq_none.1 (by simpa using hnone))
  exact ⟨p, q, hp, hlength, (Session.commit_prepared_run actions hp).1.2 hfits, hq,
    ((Session.commit_prepared_run actions hq).2 _).2 ⟨rfl, hother⟩⟩

end ProtoSchema
