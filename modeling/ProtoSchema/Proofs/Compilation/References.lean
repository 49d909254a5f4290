import ProtoSchema.Proofs.Codec.Lookup
import ProtoSchema.Proofs.Compilation.Session

/-!
# References of registered types

A plan knows the type that it refers to twice: by native identity, which is what reading and writing
look up, and by the qualified name that its field has in the descriptor. Both are settled when the
type is built, the name by the closure of the unit and the identity by the member, and both are kept
while the prepared unit waits to be committed. They meet in every registry that units build up: each
reference leads to a registered type, of the right sort and under the very name that the descriptor
has for it. So reading and writing a registered message never miss a type.

A unit may be prepared long before it is committed. What carries this over is that a registry only
grows: an entry that a unit imports is still there when the unit is committed.
-/

set_option autoImplicit false

namespace ProtoSchema

/-- All references of the registered message types lead to registered types. -/
structure Registry.ReferenceClosed (reg : Registry) : Prop where
  /-- A marshaller is bound together with its descriptor. -/
  described : ∀ t e, reg.get? t = some e → e.descriptor = e.marshaller.descriptor
  /-- The plans of a message are for the fields of its descriptor, in order. -/
  fields : ∀ t m, reg.messageMarshaller? t = some m → m.plans.map (·.field) = m.descriptor.fields
  /-- What a plan refers to is registered, under the name that the field refers to. -/
  refersTo : ∀ t m, reg.messageMarshaller? t = some m → ∀ p ∈ m.plans, p.RefersTo reg.Registers

/-- Reading and writing registered messages never end with a complaint about an unknown type. -/
structure Registry.KnowsTypes (reg : Registry) : Prop where
  encode : ∀ i m, reg.messageMarshaller? i.type = some m → ∀ name,
    reg.encode i ≠ .error (.unknownType name)
  decode : ∀ t m, reg.messageMarshaller? t = some m → ∀ input name,
    (reg.decode t input).result ≠ .error (.unknownType name)
  decodeNamed : ∀ q e m, reg.named? q = some e → e.marshaller = .message m → ∀ input name,
    (reg.decodeNamed q input).result ≠ .error (.unknownType name)

theorem Registry.Closed.knowsTypes {reg : Registry} (h : reg.Closed) : reg.KnowsTypes where
  encode _ _ hm := (keeps_encode (.refl reg) hm).ne_unknown h.not_lacks
  decode _ _ hm input := (keeps_decode (.refl reg) hm input).ne_unknown h.not_lacks
  decodeNamed _ _ _ he hm input :=
    (keeps_decodeNamed (.refl reg) he he hm input).ne_unknown h.not_lacks

/-! ## Committing -/

section

variable {u : CompilationUnit} {env : Environment} {earlier reg reg' : Registry} {occasion : Nat}
  {p : Prepared}

theorem Registry.referenceClosed_empty : Registry.empty.ReferenceClosed where
  described _ _ h := by cases h
  fields _ _ h := by cases h
  refersTo _ _ h := by cases h

/-- **Committing keeps references closed.** -/
theorem Registry.ReferenceClosed.commit (hreg : reg.ReferenceClosed) (hclosed : reg'.Closed)
    (hextends : reg.Extends earlier) (hprepare : (u.prepare env earlier occasion).result = .ok p)
    (hcommit : (p.commit reg).result = .ok reg') : reg'.ReferenceClosed := by
  obtain ⟨nodes, generated, hclosure, hp, hmap, hregs, hnames⟩ :=
    CompilationUnit.prepare_eq_ok hprepare
  have hregister := mapError_eq_ok.1 hcommit
  rw [hp] at hregister
  have hnamed := registers_of_names hextends hclosure hmap hregs hnames hregister hclosed.sort
  have hmessage : ∀ t m, reg'.messageMarshaller? t = some m →
      m.plans.map (·.field) = m.descriptor.fields ∧ ∀ p ∈ m.plans, p.RefersTo reg'.Registers := by
    intro t m hm
    obtain ⟨e, he, hmarshaller⟩ := Registry.messageMarshaller?_eq_some.1 hm
    -- Messages that were there keep their references; those of the unit got theirs by the closure.
    rcases Registry.get?_of_registered hregister he with hold | ⟨g, hg, -, rfl⟩
    · have hmold := Registry.messageMarshaller?_eq_some.2 ⟨e, hold, hmarshaller⟩
      exact ⟨hreg.fields t m hmold, fun p hp ↦ (hreg.refersTo t m hmold p hp).mono
        fun _ _ _ h ↦ h.mono (Registry.extends_of_registerSchema hregister)⟩
    · obtain ⟨info, message, -, hmade⟩ := (hregs g hg).made m hmarshaller
      exact ⟨hmade.fields, fun p hp ↦ (hmade.refersTo p hp).mono hnamed⟩
  refine ⟨fun t e he ↦ ?_, fun t m hm ↦ (hmessage t m hm).1, fun t m hm ↦ (hmessage t m hm).2⟩
  rcases Registry.get?_of_registered hregister he with hold | ⟨g, hg, -, rfl⟩
  · exact hreg.described t e hold
  · exact (hregs g hg).described

/-- References of compiled registries are closed. -/
theorem Registry.Compiled.referenceClosed (h : reg.Compiled) : reg.ReferenceClosed := by
  induction h with
  | empty => exact referenceClosed_empty
  | commit hearlier hreg hextends hprepare hcommit _ ih =>
    have hclosed := (Registry.Compiled.commit hearlier hreg hextends hprepare hcommit).closed
    exact ih.commit hclosed hextends hprepare hcommit

end

/-! ## Units at work on one registry

A unit that waits was prepared against a registry that has grown since. Other units may have been
committed meanwhile, or refused. -/

namespace Session

/-- What units do with the registry that they share: each is prepared and committed, in two steps or
at once. -/
inductive UnitAction where
  | prepare (u : CompilationUnit) (env : Environment) (occasion : Nat)
  | commit (index : Nat)
  | compile (u : CompilationUnit) (env : Environment) (occasion : Nat)

/-- What a step of a unit is among all that can be done with a registry. -/
def UnitAction.action : UnitAction → Action
  | prepare u env occasion => .prepare u env none occasion
  | commit index => .commit index
  | compile u env occasion => .compile u env occasion

/-- The state after units took some steps on an empty registry. -/
def runUnits (actions : List UnitAction) : Session := run (actions.map UnitAction.action)

/-- The registry is compiled, and every unit that waits to be committed was prepared against what
the registry was before. -/
structure OfUnits (s : Session) : Prop where
  registry : s.registry.Compiled
  prepared : ∀ p ∈ s.prepared, ∃ u env earlier occasion, Registry.Compiled earlier ∧
    s.registry.Extends earlier ∧
    (CompilationUnit.prepare u env earlier occasion).result = .ok p

variable {s s' : Session}

theorem OfUnits.grow (h : s.OfUnits) {r : Registry} {prepared : List Prepared}
    (hr : r.Compiled) (hextends : r.Extends s.registry)
    (hprepared : ∀ p ∈ prepared, p ∈ s.prepared) : OfUnits ⟨r, prepared⟩ := by
  refine ⟨hr, fun p hp ↦ ?_⟩
  obtain ⟨u, env, earlier, occasion, hearlier, hold, hprepare⟩ := h.prepared p (hprepared p hp)
  exact ⟨u, env, earlier, occasion, hearlier, hextends.trans hold, hprepare⟩

theorem OfUnits.of_outcome {action : UnitAction} (h : s.OfUnits)
    (hs : s.Outcome action.action s') : s'.OfUnits := by
  generalize ha : action.action = a at hs
  cases hs with
  | failed => exact h
  | registered => cases action <;> cases ha
  | @prepared u env other occasion p hp =>
    cases action <;> cases ha
    refine ⟨h.registry, List.forall_mem_append.2 ⟨h.prepared, List.forall_mem_singleton.2 ?_⟩⟩
    exact ⟨u, env, s.registry, occasion, h.registry, .refl _, hp⟩
  | refused => exact h.grow h.registry (.refl _) fun _ ↦ List.mem_of_mem_eraseIdx
  | committed hp hr =>
    obtain ⟨u, env, earlier, occasion, hearlier, hextends, hprepare⟩ :=
      h.prepared _ (List.mem_of_getElem? hp)
    exact h.grow (.commit hearlier h.registry hextends hprepare hr)
      (Registry.extends_of_registerSchema (mapError_eq_ok.1 hr)) fun _ ↦ List.mem_of_mem_eraseIdx
  | compiled hprepare hcommit =>
    exact h.grow (.commit h.registry h.registry (.refl _) hprepare hcommit)
      (Registry.extends_of_registerSchema (mapError_eq_ok.1 hcommit)) fun _ hp ↦ hp

theorem ofUnits_runUnits (actions : List UnitAction) : (runUnits actions).OfUnits := by
  refine foldl_induction (fun a ha s s' hs houtcome ↦ ?_)
    ⟨.empty, fun _ hp ↦ absurd hp List.not_mem_nil⟩
  obtain ⟨action, -, rfl⟩ := List.mem_map.1 ha
  exact hs.of_outcome houtcome

/-- **References stay closed.** However the steps of any units interleave, with success or without,
every reference of a registered message leads to a registered type of the right sort, under the name
that the descriptor refers to, and reading and writing registered messages never miss a type. -/
theorem referenceClosed_runUnits (actions : List UnitAction) :
    (runUnits actions).registry.ReferenceClosed ∧ (runUnits actions).registry.KnowsTypes :=
  have h := (ofUnits_runUnits actions).registry
  ⟨h.referenceClosed, h.closed.knowsTypes⟩

end Session

end ProtoSchema
