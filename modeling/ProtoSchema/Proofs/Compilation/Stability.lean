import ProtoSchema.Proofs.Compilation.Session
import ProtoSchema.Proofs.Registry.Growth

/-!
# What stays as it is

Whoever has seen something in a registry can rely on it. Whatever is done to the registry later, by
registering types or whole files or by preparing, committing and compiling units, with success or
without, every type keeps its entry, every name its type and every file its content, and whatever
was read or written comes out as it did.
-/

set_option autoImplicit false

namespace ProtoSchema

namespace Session

/-- What can be done with a registry from outside, files that come with marshallers of any origin
included. -/
inductive Edit where
  | action (action : Action)
  | registerSchema (file : SchemaFile) (regs : List Registration)

/-- Does something with the registry. -/
def edit (s : Session) : Edit → Session
  | .action action => s.step action
  | .registerSchema file regs =>
    { s with registry := keep s.registry (s.registry.registerSchema file regs) }

/-- The state after some edits of an empty registry. -/
def runEdits (edits : List Edit) : Session := edits.foldl edit {}

variable {s s' : Session}

section

variable {I : Registry → Prop}
  (hregister : ∀ r r' reg, I r → (r.register reg).result = .ok r' → I r')
  (hschema : ∀ r r' file regs, I r → (r.registerSchema file regs).result = .ok r' → I r')
include hregister hschema

theorem Outcome.keeps {action : Action} (h : I s.registry) (hs : s.Outcome action s') :
    I s'.registry := by
  cases hs with
  | failed | prepared | refused => exact h
  | registered hr => exact hregister _ _ _ h hr
  | committed _ hr => exact hschema _ _ _ _ h (mapError_eq_ok.1 hr)
  | compiled _ hcommit => exact hschema _ _ _ _ h (mapError_eq_ok.1 hcommit)

theorem keeps_edit (h : I s.registry) (e : Edit) : I (s.edit e).registry := by
  cases e with
  | action action => exact (s.outcome_step action).keeps hregister hschema h
  | registerSchema file regs =>
    unfold edit
    dsimp only
    rcases keep_eq s.registry (s.registry.registerSchema file regs) with heq | hr
    · rw [heq]
      exact h
    · exact hschema _ _ _ _ h hr

theorem runEdits_induction (hempty : I .empty) (edits : List Edit) :
    I (runEdits edits).registry := by
  have hfold : ∀ s : Session, I s.registry → I (edits.foldl edit s).registry := by
    induction edits with
    | nil => exact fun _ h ↦ h
    | cons e rest ih => exact fun s h ↦ ih _ (keeps_edit hregister hschema h e)
  exact hfold {} hempty

end

theorem Outcome.grows {action : Action} (h : s.registry.NamesBound) (hs : s.Outcome action s') :
    s.registry.Grows s'.registry ∧ s'.registry.NamesBound := by
  cases hs with
  | failed | prepared | refused => exact ⟨.refl _, h⟩
  | registered hr => exact h.register hr
  | committed _ hr => exact h.registerSchema (mapError_eq_ok.1 hr)
  | compiled _ hcommit => exact h.registerSchema (mapError_eq_ok.1 hcommit)

theorem grows_edit (h : s.registry.NamesBound) (e : Edit) :
    s.registry.Grows (s.edit e).registry ∧ (s.edit e).registry.NamesBound := by
  cases e with
  | action action => exact (s.outcome_step action).grows h
  | registerSchema file regs =>
    unfold edit
    dsimp only
    rcases keep_eq s.registry (s.registry.registerSchema file regs) with heq | hr
    · rw [heq]
      exact ⟨.refl _, h⟩
    · exact h.registerSchema hr

theorem grows_foldl (h : s.registry.NamesBound) (edits : List Edit) :
    s.registry.Grows (edits.foldl edit s).registry ∧
      (edits.foldl edit s).registry.NamesBound := by
  induction edits generalizing s with
  | nil => exact ⟨.refl _, h⟩
  | cons e rest ih =>
    obtain ⟨hgrows, hbound⟩ := grows_edit h e
    exact (ih hbound).imp_left hgrows.trans

/-- **What is bound stays bound, and what was answered is answered again.** After any edits, further
edits leave every entry, every name and every file as it was, and they change the outcome of reading
or writing only where it was a complaint about an unknown type. -/
theorem grows_runEdits (before after : List Edit) :
    (runEdits before).registry.Grows (runEdits (before ++ after)).registry ∧
      (runEdits (before ++ after)).registry.AnswersAs (runEdits before).registry := by
  have hbound := (grows_foldl (s := {}) Registry.namesBound_empty before).2
  have hgrows := (grows_foldl hbound after).1
  rw [runEdits, runEdits, List.foldl_append]
  exact ⟨hgrows, hgrows.answersAs⟩

end Session

end ProtoSchema
