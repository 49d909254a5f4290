import ProtoSchema.Proofs.Compilation.Compiled
import ProtoSchema.Proofs.Registry.Bijection

/-!
# Working on one registry

A session starts with an empty registry and then registers types, prepares units, commits prepared
ones and compiles, in any order. Whatever fails leaves the registry as it was, and a prepared unit
may wait through any changes before it is committed, which spends it. In whatever state a session
is, types and names are bound to each other: a prepared unit asks for each of its types once, no
matter against which registry it was prepared, and that is all it takes when it is committed.
-/

set_option autoImplicit false

namespace ProtoSchema

/-! ## Actions and outcomes

Errors are not kept, so all that is left of an action that fails is the state before it. A commit
spends the prepared unit also when it fails. -/

/-- A registry under construction, with the units that are prepared and not yet committed. -/
structure Session where
  registry : Registry := .empty
  prepared : List Prepared := []

namespace Session

/-- What can be done with a registry. -/
inductive Action where
  | register (reg : Registration)
  /-- Prepares a unit against the registry of the session, or against another one. -/
  | prepare (u : CompilationUnit) (env : Environment) (other : Option Registry) (occasion : Nat)
  /-- Commits one of the prepared units. -/
  | commit (index : Nat)
  | compile (u : CompilationUnit) (env : Environment) (occasion : Nat)

/-- The registry after a change of it: as it was if the change fails. -/
def keep {ε : Type} (r : Registry) (change : Logged ε Registry) : Registry :=
  match change.result with
  | .ok r' => r'
  | .error _ => r

/-- Does something with the registry. -/
def step (s : Session) : Action → Session
  | .register reg => { s with registry := keep s.registry (s.registry.register reg) }
  | .prepare u env other occasion =>
    match (u.prepare env (other.getD s.registry) occasion).result with
    | .ok p => { s with prepared := s.prepared ++ [p] }
    | .error _ => s
  | .commit index =>
    match s.prepared[index]? with
    | some p => ⟨keep s.registry (p.commit s.registry), s.prepared.eraseIdx index⟩
    | none => s
  | .compile u env occasion =>
    { s with registry := keep s.registry (Prod.snd <$> u.compile env s.registry occasion) }

/-- The state after some actions on an empty registry. -/
def run (actions : List Action) : Session := actions.foldl step {}

/-- What comes of an action: it fails and changes nothing, a failed commit apart, or it succeeds. -/
inductive Outcome (s : Session) : Action → Session → Prop
  | failed (action : Action) : Outcome s action s
  | registered {reg : Registration} {r : Registry} (h : (s.registry.register reg).result = .ok r) :
      Outcome s (.register reg) { s with registry := r }
  | prepared {u : CompilationUnit} {env : Environment} {other : Option Registry} {occasion : Nat}
      {p : Prepared} (h : (u.prepare env (other.getD s.registry) occasion).result = .ok p) :
      Outcome s (.prepare u env other occasion) { s with prepared := s.prepared ++ [p] }
  /-- A commit that fails spends the prepared unit all the same. -/
  | refused {index : Nat} {p : Prepared} (hp : s.prepared[index]? = some p) :
      Outcome s (.commit index) { s with prepared := s.prepared.eraseIdx index }
  | committed {index : Nat} {p : Prepared} {r : Registry} (hp : s.prepared[index]? = some p)
      (h : (p.commit s.registry).result = .ok r) :
      Outcome s (.commit index) ⟨r, s.prepared.eraseIdx index⟩
  | compiled {u : CompilationUnit} {env : Environment} {occasion : Nat} {p : Prepared}
      {r : Registry} (hprepare : (u.prepare env s.registry occasion).result = .ok p)
      (hcommit : (p.commit s.registry).result = .ok r) :
      Outcome s (.compile u env occasion) { s with registry := r }

theorem keep_eq {ε : Type} (r : Registry) (change : Logged ε Registry) :
    keep r change = r ∨ change.result = .ok (keep r change) := by
  unfold keep
  split
  · next r' hr' => exact .inr hr'
  · exact .inl rfl

theorem outcome_step (s : Session) (action : Action) : s.Outcome action (s.step action) := by
  cases action with
  | register reg =>
    unfold step
    dsimp only
    rcases keep_eq s.registry (s.registry.register reg) with heq | hr
    · rw [heq]
      exact .failed _
    · exact .registered hr
  | prepare u env other occasion =>
    unfold step
    dsimp only
    split
    · next p hp => exact .prepared hp
    · exact .failed _
  | commit index =>
    unfold step
    dsimp only
    split
    · next p hp =>
      rcases keep_eq s.registry (p.commit s.registry) with heq | hr
      · rw [heq]
        exact .refused hp
      · exact .committed hp hr
    · exact .failed _
  | compile u env occasion =>
    unfold step
    dsimp only
    rcases keep_eq s.registry (Prod.snd <$> u.compile env s.registry occasion) with heq | hr
    · rw [heq]
      exact .failed _
    · rw [Logged.result_map, map_eq_ok] at hr
      obtain ⟨⟨p, r⟩, hcompile, hr⟩ := hr
      obtain ⟨hprepare, hcommit⟩ := CompilationUnit.compile_eq_ok.1 hcompile
      rw [← hr]
      exact .compiled hprepare hcommit

theorem foldl_induction {I : Session → Prop} {actions : List Action}
    (hstep : ∀ action ∈ actions, ∀ s s', I s → s.Outcome action s' → I s') {s : Session}
    (hs : I s) : I (actions.foldl step s) := by
  induction actions generalizing s with
  | nil => exact hs
  | cons action rest ih =>
    have hhead := hstep action List.mem_cons_self s _ hs (s.outcome_step action)
    exact ih (fun a ha ↦ hstep a (List.mem_cons_of_mem action ha)) hhead

/-! ## Sound states -/

/-- Types and names are bound to each other, and every prepared unit asks for each of its types
once. -/
structure Sound (s : Session) : Prop where
  registry : s.registry.Bijective
  prepared : ∀ p ∈ s.prepared, (p.registrations.map (·.type)).Nodup

end Session

open Session

variable {r r' : Registry} {p : Prepared}

theorem CompilationUnit.nodup_registrations {u : CompilationUnit} {env : Environment}
    {occasion : Nat} (h : (u.prepare env r occasion).result = .ok p) :
    (p.registrations.map (·.type)).Nodup := by
  obtain ⟨nodes, generated, hclosure, hp, hmap, hregs, -⟩ := CompilationUnit.prepare_eq_ok h
  rw [hp]
  exact nodup_generated (WalkContext.closure_sound hclosure).1 hmap hregs

/-- Committing keeps the maps inverse, no matter what the registry became since the unit was
prepared. -/
theorem Registry.Bijective.commit (h : r.Bijective) (hp : (p.registrations.map (·.type)).Nodup)
    (hcommit : (p.commit r).result = .ok r') : r'.Bijective := by
  refine h.registerSchema (fun reg h₁ reg' h₂ ht ↦ ?_) (mapError_eq_ok.1 hcommit)
  rw [List.inj_on_of_nodup_map hp (mem_fresh.1 h₁).1 (mem_fresh.1 h₂).1 ht]

theorem Session.Sound.of_outcome {s s' : Session} {action : Action} (h : s.Sound)
    (hs : s.Outcome action s') : s'.Sound := by
  cases hs with
  | failed => exact h
  | registered hr => exact ⟨h.registry.register hr, h.prepared⟩
  | prepared hp =>
    refine ⟨h.registry, List.forall_mem_append.2 ⟨h.prepared, List.forall_mem_singleton.2 ?_⟩⟩
    exact CompilationUnit.nodup_registrations hp
  | refused => exact ⟨h.registry, fun p hp ↦ h.prepared p (List.mem_of_mem_eraseIdx hp)⟩
  | committed hp hr =>
    exact ⟨h.registry.commit (h.prepared _ (List.mem_of_getElem? hp)) hr,
      fun p hp ↦ h.prepared p (List.mem_of_mem_eraseIdx hp)⟩
  | compiled hprepare hcommit =>
    exact ⟨h.registry.commit (CompilationUnit.nodup_registrations hprepare) hcommit, h.prepared⟩

theorem Session.sound_run (actions : List Action) : (run actions).Sound :=
  foldl_induction (fun _ _ _ _ ↦ Sound.of_outcome)
    ⟨Registry.bijective_empty, fun _ hp ↦ absurd hp List.not_mem_nil⟩

/-- **Types and names are bound to each other.** Whatever was done with an empty registry, with
success or without, every name is bound to the type whose entry bears it, every type to a marshaller
of its own, and all ways to look up a binding agree. -/
theorem Session.bijective_run (actions : List Action) :
    (run actions).registry.Bijective ∧ (run actions).registry.Coherent :=
  ⟨(sound_run actions).registry, (sound_run actions).registry.coherent⟩

end ProtoSchema
