import ProtoSchema.Proofs.Registry.Bijection

/-!
# Registering a file in place

A registry that is changed in place keeps what was changed before a failure. Registering a file
looks at all of its registrations before it binds the first one, and binding cannot fail, so a file
that is refused changes nothing, and changing in place comes to the same as computing another
registry.

A file that is not refused is bound as a whole exactly if those of its registrations that are for
one free type agree on the descriptor. Looking at them does not make sure of that: it compares each
of them with the registry as it was before the file, where the type is free, and with the other
registrations only if they bear its name.
-/

set_option autoImplicit false

namespace ProtoSchema

namespace Registry

/-! ## Changing a registry in place

Steps are run on a registry, and leave one behind whether they fail or not. What they left is looked
at together with their error. -/

/-- Steps that change a registry and may fail. What they changed stays changed if they fail. -/
abbrev InPlace := EStateM RegistrationError Registry

/-- A step that only looks at the registry. -/
def InPlace.look {α : Type} (f : Registry → Except RegistrationError α) : InPlace α := fun r ↦
  match f r with
  | .ok a => .ok a r
  | .error e => .error e r

/-- Looks at the registrations of a file one after the other. -/
def checkInPlace (claimed : List (String × TypeId)) : List Registration → InPlace (List Bool)
  | [] => return []
  | reg :: rest => do
    let clash :=
      match claimed.lookup reg.name with
      | some other => decide (other ≠ reg.type)
      | none => false
    if clash then throw (.nameConflict reg.name reg.marshaller.path)
    let new ← InPlace.look (·.isNew reg)
    return new :: (← checkInPlace ((reg.name, reg.type) :: claimed) rest)

/-- Binds the new registrations of a file. -/
def insertInPlace (file : String) : List (Registration × Bool) → InPlace Unit
  | [] => return
  | (reg, new) :: rest => do
    if new then modify fun r ↦ r.insert reg (some file)
    insertInPlace file rest

/-- Registers a file with its types. -/
def registerSchemaInPlace (file : SchemaFile) (regs : List Registration) : InPlace Unit := do
  let r ← get
  let known ←
    match r.file? file.name with
    | some existing =>
      if existing == file then pure true else throw (.fileConflict file.name)
    | none => pure false
  let flags ← checkInPlace [] regs
  insertInPlace file.name (regs.zip flags)
  if !known then modify fun r ↦ { r with files := r.files ++ [file] }

variable {α β : Type} {r r' : Registry} {file : SchemaFile} {regs : List Registration}

namespace InPlace

theorem run_bind (x : InPlace α) (f : α → InPlace β) (r : Registry) :
    (x >>= f).run r =
      match x.run r with
      | .ok a r' => (f a).run r'
      | .error e r' => .error e r' := by
  change EStateM.bind x f r = _
  unfold EStateM.bind EStateM.run
  cases x r <;> rfl

theorem run_bind_of_ok {x : InPlace α} {a : α} (h : x.run r = .ok a r') (f : α → InPlace β) :
    (x >>= f).run r = (f a).run r' := by
  rw [run_bind, h]

theorem run_bind_of_error {x : InPlace α} {e : RegistrationError} (h : x.run r = .error e r')
    (f : α → InPlace β) : (x >>= f).run r = .error e r' := by
  rw [run_bind, h]

theorem run_look_of_ok {f : Registry → Except RegistrationError α} {a : α} (h : f r = .ok a) :
    (look f).run r = .ok a r := by
  simp only [look, EStateM.run, h]

theorem run_look_of_error {f : Registry → Except RegistrationError α} {e : RegistrationError}
    (h : f r = .error e) : (look f).run r = .error e r := by
  simp only [look, EStateM.run, h]

end InPlace

theorem run_checkInPlace (claimed : List (String × TypeId)) (regs : List Registration)
    (r : Registry) :
    (checkInPlace claimed regs).run r = (InPlace.look (·.checkAll claimed regs)).run r := by
  induction regs generalizing claimed with
  | nil => rfl
  | cons reg rest ih =>
    rw [checkInPlace]
    dsimp only
    by_cases hclash : (match claimed.lookup reg.name with
      | some other => decide (other ≠ reg.type)
      | none => false) = true
    · rw [if_pos hclash]
      refine Eq.symm (InPlace.run_look_of_error ?_)
      rw [checkAll]
      exact if_pos hclash
    · rw [if_neg hclash]
      have hall : r.checkAll claimed (reg :: rest) = do
          let new ← r.isNew reg
          return new :: (← r.checkAll ((reg.name, reg.type) :: claimed) rest) := by
        rw [checkAll]
        exact if_neg hclash
      cases hnew : r.isNew reg with
      | error e =>
        rw [hnew] at hall
        rw [InPlace.run_bind_of_error (InPlace.run_look_of_error hnew),
          InPlace.run_look_of_error hall]
      | ok new =>
        rw [hnew, ok_bind] at hall
        rw [InPlace.run_bind_of_ok (InPlace.run_look_of_ok hnew)]
        cases hrest : r.checkAll ((reg.name, reg.type) :: claimed) rest with
        | error e =>
          rw [hrest] at hall
          rw [InPlace.run_bind_of_error ((ih _).trans (InPlace.run_look_of_error hrest)),
            InPlace.run_look_of_error hall]
        | ok flags =>
          rw [hrest] at hall
          rw [InPlace.run_bind_of_ok ((ih _).trans (InPlace.run_look_of_ok hrest)),
            InPlace.run_look_of_ok hall]
          rfl

theorem run_insertInPlace (file : String) (r : Registry) (regs : List (Registration × Bool)) :
    ∃ r', (insertAll file r regs).result = .ok r' ∧
      (insertInPlace file regs).run r = .ok () r' := by
  induction regs generalizing r with
  | nil => exact ⟨r, rfl, rfl⟩
  | cons p rest ih =>
    obtain ⟨reg, new⟩ := p
    cases new with
    | true =>
      obtain ⟨r', hall, hrun⟩ := ih (r.insert reg (some file))
      refine ⟨r', ?_, (InPlace.run_bind_of_ok rfl _).trans hrun⟩
      rw [insertAll, if_pos rfl, Logged.result_bind, noteInsert, Logged.result_note, ok_bind, hall]
    | false => exact ih r

/-- **Changing in place is computing another registry.** What is refused changes nothing. -/
theorem run_registerSchemaInPlace (r : Registry) (file : SchemaFile) (regs : List Registration) :
    (registerSchemaInPlace file regs).run r =
      match (r.registerSchema file regs).result with
      | .ok r' => .ok () r'
      | .error e => .error e r := by
  have hdone : ∀ known : Bool,
      ((do
        let flags ← checkInPlace [] regs
        insertInPlace file.name (regs.zip flags)
        if !known then modify fun r ↦ { r with files := r.files ++ [file] } :
          InPlace Unit).run r) =
        match ((do
          let fresh ← Logged.ofExcept (r.checkAll [] regs)
          let bound ← insertAll file.name r (regs.zip fresh)
          return if known then bound else { bound with files := bound.files ++ [file] } :
            Logged RegistrationError Registry).result) with
        | .ok r' => .ok () r'
        | .error e => .error e r := by
    intro known
    rw [Logged.result_bind, Logged.result_ofExcept]
    cases hflags : r.checkAll [] regs with
    | error e =>
      rw [InPlace.run_bind_of_error
        ((run_checkInPlace [] regs r).trans (InPlace.run_look_of_error hflags))]
      rfl
    | ok flags =>
      obtain ⟨r', hall, hrun⟩ := run_insertInPlace file.name r (regs.zip flags)
      rw [InPlace.run_bind_of_ok
        ((run_checkInPlace [] regs r).trans (InPlace.run_look_of_ok hflags)),
        InPlace.run_bind_of_ok hrun, ok_bind, Logged.result_bind, hall]
      cases known <;> rfl
  have hget : EStateM.run (get : InPlace Registry) r = .ok r r := rfl
  unfold registerSchemaInPlace registerSchema
  rw [InPlace.run_bind_of_ok hget]
  cases hfile : r.file? file.name with
  | none => exact hdone false
  | some existing =>
    dsimp only
    split
    · exact hdone true
    · rfl

theorem run_eq_error {e : RegistrationError}
    (h : (registerSchemaInPlace file regs).run r = .error e r') : r' = r := by
  rw [run_registerSchemaInPlace] at h
  split at h <;> cases h
  rfl

theorem run_eq_ok (h : (registerSchemaInPlace file regs).run r = .ok () r') :
    (r.registerSchema file regs).result = .ok r' := by
  rw [run_registerSchemaInPlace] at h
  split at h
  · next hr' =>
    cases h
    exact hr'
  · cases h

/-! ## What a registered file binds -/

/-- The registrations of a file for one free type have the description of the last of them. -/
def Agrees (r : Registry) (regs : List Registration) : Prop :=
  ∀ reg ∈ regs, r.get? reg.type = none → ∀ last, Registration.last? regs reg.type = some last →
    last.descriptor.Same reg.descriptor

/-- The type of a registration is bound to its description, and its name to its type. -/
structure Binds (r : Registry) (reg : Registration) : Prop where
  entry : ∃ e, r.get? reg.type = some e ∧ e.descriptor.Same reg.descriptor
  name : r.names.lookup reg.name = some reg.type

theorem entries_iff_agrees (h : (r.registerSchema file regs).result = .ok r') :
    (∀ reg ∈ regs, ∃ e, r'.get? reg.type = some e ∧ e.descriptor.Same reg.descriptor) ↔
      r.Agrees regs := by
  constructor
  · intro hbound reg hreg hfree last hlast
    obtain ⟨e, he, hsame⟩ := hbound reg hreg
    rcases get?_of_mem h hreg with ⟨_, hold, -⟩ | ⟨-, last', hlast', hnew⟩
    · rw [hfree] at hold
      cases hold
    · obtain rfl := Option.some.inj (hlast.symm.trans hlast')
      rwa [Option.some.inj (he.symm.trans hnew)] at hsame
  · intro hagrees reg hreg
    rcases get?_of_mem h hreg with ⟨e, -, he, hd⟩ | ⟨hfree, last, hlast, he⟩
    · exact ⟨e, he, .inr hd⟩
    · exact ⟨_, he, hagrees reg hreg hfree last hlast⟩

theorem Bijective.of_agrees (hr : r.Bijective) (h : (r.registerSchema file regs).result = .ok r')
    (hagrees : r.Agrees regs) : r'.Bijective := by
  refine hr.registerSchema (fun reg h₁ reg' h₂ ht ↦ ?_) h
  obtain ⟨hreg, hfree⟩ := mem_fresh.1 h₁
  obtain ⟨hreg', hfree'⟩ := mem_fresh.1 h₂
  obtain ⟨last, hlast⟩ := Registration.exists_last? hreg
  have hname := (hagrees reg hreg hfree last hlast).qualifiedName_eq
  have hname' := (hagrees reg' hreg' hfree' last (ht ▸ hlast)).qualifiedName_eq
  exact hname.symm.trans hname'

theorem Bijective.binds_iff_agrees (hr : r.Bijective)
    (h : (r.registerSchema file regs).result = .ok r') :
    ((∀ reg ∈ regs, r'.Binds reg) ∧ r'.Bijective) ↔ r.Agrees regs := by
  constructor
  · rintro ⟨hbinds, -⟩
    exact (entries_iff_agrees h).1 fun reg hreg ↦ (hbinds reg hreg).entry
  · intro hagrees
    have hr' := hr.of_agrees h hagrees
    refine ⟨fun reg hreg ↦ ?_, hr'⟩
    obtain ⟨e, he, hsame⟩ := (entries_iff_agrees h).2 hagrees reg hreg
    exact ⟨⟨e, he, hsame⟩, (hr'.named _ _).2 ⟨e, he, hsame.qualifiedName_eq⟩⟩

/-- **Registering a file, all or none of it.** A file that is refused changes nothing. One that is
not refused is bound as a whole, each type to the description that was asked for, each name to its
type and both maps still inverse to each other, exactly if the registrations for one free type
agree. -/
theorem registerSchema_atomic (r : Registry) (file : SchemaFile) (regs : List Registration) :
    (∀ e r', (registerSchemaInPlace file regs).run r = .error e r' → r' = r) ∧
      ∀ r', (registerSchemaInPlace file regs).run r = .ok () r' →
        ((∀ reg ∈ regs, ∃ e, r'.get? reg.type = some e ∧ e.descriptor.Same reg.descriptor) ↔
          r.Agrees regs) ∧
        (r.Bijective → (((∀ reg ∈ regs, r'.Binds reg) ∧ r'.Bijective) ↔ r.Agrees regs)) :=
  ⟨fun _ _ h ↦ run_eq_error h, fun _ h ↦
    ⟨entries_iff_agrees (run_eq_ok h), fun hr ↦ hr.binds_iff_agrees (run_eq_ok h)⟩⟩

end Registry

namespace Mood

def type : TypeId := ⟨"demo::Mood"⟩

/-- The enum under a qualified name. -/
def registration (qualifiedName : String) : Registration :=
  let enum : EnumType := ⟨"Mood", qualifiedName, [⟨"CALM", 0, none⟩], none⟩
  ⟨.enum enum, ⟨0, 0⟩, .enum ⟨type, type.name, enum⟩, ⟨0, 0⟩⟩

def file : SchemaFile := ⟨"mood.proto", none, none, [], []⟩

theorem exists_run (regs : List Registration)
    (h : ((Registry.empty.registerSchema file regs).result).toOption.isSome = true) :
    ∃ r', (Registry.registerSchemaInPlace file regs).run .empty = .ok () r' := by
  obtain ⟨r', hr'⟩ := isSome_toOption_iff.1 h
  refine ⟨r', ?_⟩
  rw [Registry.run_registerSchemaInPlace, hr']

end Mood

/-- A file that asks for one type twice in the same way is bound as a whole. -/
theorem Mood.registerSchema_atomic_twice : ∃ r',
    (Registry.registerSchemaInPlace file [registration "a.Mood", registration "a.Mood"]).run .empty
      = .ok () r' ∧
      (∀ reg ∈ [registration "a.Mood", registration "a.Mood"], r'.Binds reg) ∧ r'.Bijective := by
  obtain ⟨r', hrun⟩ := exists_run [registration "a.Mood", registration "a.Mood"] (by decide +kernel)
  have hagrees : Registry.empty.Agrees [registration "a.Mood", registration "a.Mood"] := by
    intro reg hreg _ last hlast
    have hmem := (Registration.mem_of_last? hlast).1
    simp only [List.mem_cons, List.not_mem_nil, or_false, or_self] at hreg hmem
    rw [hreg, hmem]
    exact .inl rfl
  exact ⟨r', hrun, (((Registry.registerSchema_atomic .empty file _).2 r' hrun).2
    Registry.bijective_empty).2 hagrees⟩

/-- A file that asks for one type under two names is not refused, and its first name is bound to a
type whose entry bears the second. -/
theorem Mood.not_atomic : ∃ r',
    (Registry.registerSchemaInPlace file [registration "a.Mood", registration "b.Mood"]).run .empty
      = .ok () r' ∧ Registry.empty.Bijective ∧
      ¬r'.Binds (registration "a.Mood") ∧ ¬r'.Bijective := by
  obtain ⟨r', hrun⟩ := exists_run [registration "a.Mood", registration "b.Mood"] (by decide +kernel)
  have hresult := Registry.run_eq_ok hrun
  have hnames : ((Registry.empty.registerSchema file
      [registration "a.Mood", registration "b.Mood"]).result.toOption.map (·.names)) =
        some [("a.Mood", type), ("b.Mood", type)] := by
    decide +kernel
  rw [hresult] at hnames
  have hnames : r'.names = [("a.Mood", type), ("b.Mood", type)] := Option.some.inj hnames
  have hnamed : r'.names.lookup "a.Mood" = some type := by
    rw [hnames]
    rfl
  have hbound : ∀ e, r'.get? type = some e → e.name = "b.Mood" := by
    intro e he
    rcases Registry.get?_of_mem hresult List.mem_cons_self with
      ⟨_, hold, -⟩ | ⟨-, last, hlast, hnew⟩
    · cases hold
    · obtain rfl := Option.some.inj (show some (registration "b.Mood") = some last from hlast)
      rw [Option.some.inj (he.symm.trans hnew)]
      rfl
  refine ⟨r', hrun, Registry.bijective_empty, fun hbinds ↦ ?_, fun hbijective ↦ ?_⟩
  · obtain ⟨e, he, hsame⟩ := hbinds.entry
    have hname : "b.Mood" = "a.Mood" := (hbound e he).symm.trans hsame.qualifiedName_eq
    exact absurd hname (by decide)
  · obtain ⟨e, he, hname⟩ := (hbijective.named _ _).1 hnamed
    exact absurd ((hbound e he).symm.trans hname) (by decide)

end ProtoSchema
