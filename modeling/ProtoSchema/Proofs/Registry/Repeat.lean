import ProtoSchema.Proofs.Registry.Register

/-!
# Registering once more

A registration is repeated for the same native type with the same description or an equal one;
whatever else it brings along, its marshaller above all, is not looked at. The type is bound then to
a description that equals the one that was registered first, or is that one, so the question is
whether the repeated description equals it as well. It does, since `==` is symmetric and transitive,
with one exception: a description with a default that is no number equals nothing. The like holds
for the files, which are compared before their registrations.
-/

set_option autoImplicit false

namespace ProtoSchema

/-- Another registration for the same native type, with the same description or an equal one. -/
structure Registration.Repeats (reg reg' : Registration) : Prop where
  type : reg'.type = reg.type
  descriptor : reg.descriptor.Same reg'.descriptor

theorem Registration.Repeats.name {reg reg' : Registration} (h : reg.Repeats reg') :
    reg'.name = reg.name :=
  h.descriptor.qualifiedName_eq.symm

theorem Registration.Repeats.refl (reg : Registration) : reg.Repeats reg := ⟨rfl, .inl rfl⟩

namespace Registry

variable {r r₁ : Registry} {reg reg' : Registration}

theorem isNew_again {e : Entry} (he : r.get? reg.type = some e)
    (hsame : e.descriptor.Same reg.descriptor) (hrepeats : reg.Repeats reg') :
    r.isNew reg' =
      if reg.descriptor.hasNaN then .error (.typeConflict reg'.marshaller.path reg.name)
      else .ok false := by
  have hbound : r.get? reg'.type = some e := by rw [hrepeats.type, he]
  have hname : e.name = reg.name := hsame.qualifiedName_eq
  have hequal : (e.descriptor == reg'.descriptor) = !reg.descriptor.hasNaN := by
    rw [← hrepeats.descriptor.beq_eq]
    rcases hsame with hsame | hsame
    · rw [hsame]
    · exact BEq.congr_left hsame
  unfold isNew
  rw [hbound]
  dsimp only
  rw [hequal, hname]
  cases reg.descriptor.hasNaN <;> rfl

/-- **Registering again changes nothing**, and the marshaller that came first stays, unless a
default of the description is no number: then the type is said to be bound to another one. -/
theorem register_again (h : (r.register reg).result = .ok r₁) (hrepeats : reg.Repeats reg') :
    (r₁.register reg').result =
      if reg.descriptor.hasNaN then .error (.typeConflict reg'.marshaller.path reg.name)
      else .ok r₁ := by
  have hbound : ∃ e, r₁.get? reg.type = some e ∧ e.descriptor.Same reg.descriptor := by
    rcases register_eq_ok h with ⟨-, rfl⟩ | ⟨hknown, rfl⟩
    · refine ⟨{ reg with file := none }, ?_, .inl rfl⟩
      rw [get?_insert, if_pos rfl]
    · obtain ⟨e, he, hsame⟩ := isNew_eq_false.1 hknown
      exact ⟨e, he, .inr hsame⟩
  obtain ⟨e, he, hsame⟩ := hbound
  rw [register, Logged.result_bind, Logged.result_ofExcept, isNew_again he hsame hrepeats]
  cases reg.descriptor.hasNaN <;> rfl

/-! ## A file -/

variable {file file' : SchemaFile} {files : List SchemaFile} {regs regs' : List Registration}

theorem file?_of_registerSchema (h : (r.registerSchema file regs).result = .ok r₁) :
    ∃ existing, r₁.file? file.name = some existing ∧ existing.Same file := by
  obtain ⟨-, files, hwith, hr₁⟩ := registerSchema_eq_ok.1 h
  have hr₁ : r₁.files = files := by rw [hr₁]
  rw [file?, hr₁]
  rcases filesWith_eq_some.1 hwith with ⟨existing, hfile, hsame, rfl⟩ | ⟨hfree, rfl⟩
  · exact ⟨existing, hfile, .inr hsame⟩
  · refine ⟨file, ?_, .inl rfl⟩
    rw [List.find?_append, show r.files.find? (·.name == file.name) = none from hfree]
    simp

theorem accepts_again (h : (r.registerSchema file regs).result = .ok r₁)
    (hdistinct : (regs.map (·.type)).Nodup)
    (hnan : ∀ reg ∈ regs, reg.descriptor.hasNaN = false)
    (hrepeats : List.Forall₂ Registration.Repeats regs regs') :
    r₁.Accepts regs' ∧ r₁.fresh regs' = [] := by
  have hknown : ∀ reg' ∈ regs', r₁.isNew reg' = .ok false := by
    intro reg' hreg'
    obtain ⟨reg, hreg, hrepeat⟩ := exists_of_forall₂_right hrepeats hreg'
    obtain ⟨e, he, hsame⟩ := exists_entry_of_registerSchema h hdistinct hreg
    rw [isNew_again he hsame hrepeat, hnan reg hreg]
    rfl
  have hcontains : ∀ reg' ∈ regs', r₁.contains reg'.type = true := by
    intro reg' hreg'
    obtain ⟨e, he, -⟩ := isNew_eq_false.1 (hknown reg' hreg')
    rw [contains, he, Option.isSome_some]
  obtain ⟨haccepts, -⟩ := registerSchema_eq_ok.1 h
  refine ⟨⟨fun reg' hreg' ↦ ?_, fun reg₁ h₁ reg₂ h₂ hname ↦ ?_⟩, ?_⟩
  · rw [hknown reg' hreg', hcontains reg' hreg', Bool.not_true]
  · obtain ⟨old₁, hold₁, hrepeat₁⟩ := exists_of_forall₂_right hrepeats h₁
    obtain ⟨old₂, hold₂, hrepeat₂⟩ := exists_of_forall₂_right hrepeats h₂
    rw [hrepeat₁.type, hrepeat₂.type]
    rw [hrepeat₁.name, hrepeat₂.name] at hname
    exact haccepts.type old₁ hold₁ old₂ hold₂ hname
  · refine List.filter_eq_nil_iff.2 fun reg' hreg' ↦ ?_
    rw [hcontains reg' hreg', Bool.not_true]
    exact Bool.false_ne_true

/-- **Registering a file again changes nothing**, unless a default in it is no number: then another
file is said to have its name. The registrations may be made anew. -/
theorem registerSchema_again (h : (r.registerSchema file regs).result = .ok r₁)
    (htypes : file.types = regs.map (·.descriptor)) (hdistinct : (regs.map (·.type)).Nodup)
    (hfile : file.Same file') (hrepeats : List.Forall₂ Registration.Repeats regs regs') :
    (r₁.registerSchema file' regs').result =
      if file.hasNaN then .error (.fileConflict file.name) else .ok r₁ := by
  have hname : file'.name = file.name := hfile.name_eq.symm
  have hexisting : ∃ existing, r₁.file? file'.name = some existing ∧
      (existing == file') = !file.hasNaN := by
    obtain ⟨existing, hexisting, hsame⟩ := file?_of_registerSchema h
    refine ⟨existing, hname ▸ hexisting, ?_⟩
    rw [← hfile.beq_eq]
    rcases hsame with rfl | hsame
    · rfl
    · exact BEq.congr_left hsame
  obtain ⟨existing, hexisting, hequal⟩ := hexisting
  cases hnan : file.hasNaN with
  | true =>
    rw [hnan, Bool.not_true] at hequal
    rw [registerSchema_of_holdsOther ⟨existing, hexisting, hequal⟩, hname]
    rfl
  | false =>
    rw [hnan, Bool.not_false] at hequal
    have hnumbers : ∀ reg ∈ regs, reg.descriptor.hasNaN = false := by
      intro reg hreg
      refine Bool.eq_false_iff.2 (List.any_eq_false.1 hnan reg.descriptor ?_)
      rw [htypes]
      exact List.mem_map_of_mem hreg
    obtain ⟨haccepts, hfresh⟩ := accepts_again h hdistinct hnumbers hrepeats
    have hwith : r₁.filesWith file' = some r₁.files :=
      filesWith_eq_some.2 (.inl ⟨existing, hexisting, hequal, rfl⟩)
    refine registerSchema_eq_ok.2 ⟨haccepts, r₁.files, hwith, ?_⟩
    rw [hfresh]
    rfl

end Registry

end ProtoSchema
