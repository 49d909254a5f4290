import ProtoSchema.Proofs.Codec.Storing
import ProtoSchema.Proofs.Compilation.Session
import ProtoSchema.Proofs.Registry.Repeat

/-!
# Registering and committing once more

What was registered or committed may be handed in once more, by a caller that kept it or by one that
made it anew. The registry then has all of it and stays as it is, the marshallers that came first
included. It knows again what it has by `==`, and a default that is no number is not equal to
itself, so a description with such a default, which can be built and printed like any other, is
refused the second time as if it were another one.
-/

set_option autoImplicit false

namespace ProtoSchema

/-- Another prepared unit with the same file or an equal one, and with the same registrations up to
what is not compared. -/
structure Prepared.Repeats (p p' : Prepared) : Prop where
  file : p.file.Same p'.file
  registrations : List.Forall₂ Registration.Repeats p.registrations p'.registrations

theorem Prepared.Repeats.refl (p : Prepared) : p.Repeats p :=
  ⟨.inl rfl, List.forall₂_same.2 fun reg _ ↦ .refl reg⟩

/-- **Doing the same twice.** A registration that succeeded succeeds again and changes nothing, for
any description that is the same or equal, and so does a commit of a prepared unit, unless a default
in it is no number. With such a default the second one is always refused. -/
theorem register_commit_again (r r₁ : Registry) :
    (∀ reg reg' : Registration, (r.register reg).result = .ok r₁ → reg.Repeats reg' →
      (r₁.register reg').result =
        if reg.descriptor.hasNaN then .error (.typeConflict reg'.marshaller.path reg.name)
        else .ok r₁) ∧
    ∀ (u : CompilationUnit) (env : Environment) (earlier : Registry) (occasion : Nat)
      (p p' : Prepared), (u.prepare env earlier occasion).result = .ok p →
        (p.commit r).result = .ok r₁ → p.Repeats p' →
        (p'.commit r₁).result =
          if p.file.hasNaN then .error (.registration (.fileConflict u.fileName)) else .ok r₁ := by
  constructor
  · intro reg reg' h hrepeats
    exact Registry.register_again h hrepeats
  · intro u env earlier occasion p p' hprepare hcommit hrepeats
    have hdistinct := CompilationUnit.nodup_registrations hprepare
    obtain ⟨-, nodes, generated, -, -, rfl⟩ := CompilationUnit.prepare_iff.1 hprepare
    have hagain := Registry.registerSchema_again (mapError_eq_ok.1 hcommit)
      CompilationUnit.types_prepared hdistinct hrepeats.file hrepeats.registrations
    rw [Prepared.commit, Logged.result_mapError, hagain]
    cases (u.prepared nodes generated).file.hasNaN <;> rfl

/-! ## A boiler

The pressure in the boiler has a default, which is given by its bits. -/

namespace Boiler

def boiler : TypeId := ⟨"boiler::Boiler"⟩

/-- A message with a number whose default is given by its bits. -/
def environment (bits : UInt64) : Environment :=
  [.storing boiler
    [({ name := "pressure", kind := .field (.optional (.scalar .double)), getter := ·
        number := some 1, default := some (.float ⟨bits⟩) })]]

def unit : CompilationUnit := { fileName := "boiler.proto", requested := [.of boiler] }

/-- The unit has one registration. Both can be registered a first time. -/
theorem exists_first (bits : UInt64) (nan : Bool)
    (h : (unit.prepare (environment bits) .empty 0).result.toOption.map (fun p ↦
      (p.registrations.map fun reg ↦ (reg.descriptor.hasNaN, reg.marshaller.path, reg.name,
          (Registry.empty.register reg).result.toOption.isSome),
        p.file.hasNaN, (p.commit .empty).result.toOption.isSome)) =
      some ([(nan, boiler.name, "Boiler", true)], nan, true)) :
    ∃ p reg r r₁, (unit.prepare (environment bits) .empty 0).result = .ok p ∧
      p.registrations = [reg] ∧ reg.marshaller.path = boiler.name ∧ reg.name = "Boiler" ∧
      reg.descriptor.hasNaN = nan ∧ p.file.hasNaN = nan ∧
      (Registry.empty.register reg).result = .ok r ∧ (p.commit .empty).result = .ok r₁ := by
  obtain ⟨p, hp, hall⟩ := Option.map_eq_some_iff.1 h
  obtain ⟨hregs, hfile, hcommit⟩ := by simpa only [Prod.mk.injEq] using hall
  obtain ⟨reg, hreg, hone⟩ := List.map_eq_singleton_iff.1 hregs
  obtain ⟨hnan, hpath, hname, hregister⟩ := by simpa only [Prod.mk.injEq] using hone
  obtain ⟨r, hr⟩ := isSome_toOption_iff.1 hregister
  obtain ⟨r₁, hr₁⟩ := isSome_toOption_iff.1 hcommit
  exact ⟨p, reg, r, r₁, toOption_eq_some.1 hp, hreg, hpath, hname, hnan, hfile, hr, hr₁⟩

end Boiler

/-- A message whose default is one half is registered and committed twice. -/
theorem Boiler.register_commit_again_half : ∃ p reg r r₁,
    (unit.prepare (environment 0x3FE0000000000000) .empty 0).result = .ok p ∧
      p.registrations = [reg] ∧
      (Registry.empty.register reg).result = .ok r ∧ (r.register reg).result = .ok r ∧
      (p.commit .empty).result = .ok r₁ ∧ (p.commit r₁).result = .ok r₁ := by
  obtain ⟨p, reg, r, r₁, hp, hreg, -, -, hnan, hfile, hr, hr₁⟩ :=
    exists_first 0x3FE0000000000000 false (by decide +kernel)
  have hagain := (register_commit_again .empty r).1 reg reg hr (.refl reg)
  have hagain' := (register_commit_again .empty r₁).2 unit _ .empty 0 p p hp hr₁ (.refl p)
  rw [hnan] at hagain
  rw [hfile] at hagain'
  exact ⟨p, reg, r, r₁, hp, hreg, hr, hagain, hr₁, hagain'⟩

/-- One whose default is no number is refused the second time. -/
theorem Boiler.not_again : ∃ p reg r r₁,
    (unit.prepare (environment 0x7FF8000000000000) .empty 0).result = .ok p ∧
      p.registrations = [reg] ∧ (Registry.empty.register reg).result = .ok r ∧
      (r.register reg).result = .error (.typeConflict "boiler::Boiler" "Boiler") ∧
      (p.commit .empty).result = .ok r₁ ∧
      (p.commit r₁).result = .error (.registration (.fileConflict "boiler.proto")) := by
  obtain ⟨p, reg, r, r₁, hp, hreg, hpath, hname, hnan, hfile, hr, hr₁⟩ :=
    exists_first 0x7FF8000000000000 true (by decide +kernel)
  have hagain := Registry.register_again hr (.refl reg)
  rw [hnan, hpath, hname] at hagain
  have hother : r₁.HoldsOther p.file := by
    obtain ⟨existing, hexisting, hsame⟩ :=
      Registry.file?_of_registerSchema (mapError_eq_ok.1 hr₁)
    refine ⟨existing, hexisting, Bool.eq_false_iff.2 fun h ↦ ?_⟩
    rw [SchemaFile.hasNaN_of_beq (BEq.symm h)] at hfile
    cases hfile
  have hname : p.file.name = "boiler.proto" := by
    obtain ⟨-, nodes, generated, -, -, rfl⟩ := CompilationUnit.prepare_iff.1 hp
    rfl
  refine ⟨p, reg, r, r₁, hp, hreg, hr, hagain, hr₁, ?_⟩
  rw [Prepared.commit, Logged.result_mapError, Registry.registerSchema_of_holdsOther hother, hname]
  rfl

end ProtoSchema
