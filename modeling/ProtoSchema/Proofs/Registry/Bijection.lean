import ProtoSchema.Codec.Decode
import ProtoSchema.Proofs.Registry.Closed

/-!
# Types and names are bound to each other

A registry keeps two maps, from types to entries and from names to types, and changes both whenever
it binds a registration. They stay inverse to each other as long as no registration shares its type
or its name, but not both, with an entry; this is what `Admits` says. A registration that is new is
admitted. A file is looked at before the first of its registrations is bound, so the later ones must
still be admitted after the earlier ones were bound, and they are if two registrations of the file
that are for one type bear one name. Looking at the file made sure of the converse.
-/

set_option autoImplicit false

namespace ProtoSchema

namespace Registry

/-- A name is bound to a type exactly if the entry of the type bears it, and types are bound to
marshallers of their own. -/
structure Bijective (r : Registry) : Prop where
  named : ∀ name t, r.names.lookup name = some t ↔ ∃ e, r.get? t = some e ∧ e.name = name
  type : ∀ t e, r.get? t = some e → e.marshaller.type = t

/-- Every entry shares both the type and the name of a registration, or neither. -/
def Admits (r : Registry) (reg : Registration) : Prop :=
  ∀ t e, r.get? t = some e → (t = reg.type ↔ e.name = reg.name)

variable {r r' : Registry} {reg reg' : Registration}

theorem bijective_empty : empty.Bijective where
  named name t := by
    constructor
    · rintro ⟨⟩
    · rintro ⟨_, ⟨⟩, _⟩
  type _ _ h := by cases h

theorem Bijective.named?_eq_some (h : r.Bijective) {name : String} {e : Entry} :
    r.named? name = some e ↔ r.get? e.type = some e ∧ e.name = name := by
  rw [named?, Option.bind_eq_some_iff]
  constructor
  · rintro ⟨t, hname, he⟩
    obtain ⟨e', he', hname⟩ := (h.named name t).1 hname
    obtain rfl := Option.some.inj (he.symm.trans he')
    have ht : e.type = t := h.type t e he
    exact ⟨ht.symm ▸ he, hname⟩
  · rintro ⟨he, hname⟩
    exact ⟨e.type, (h.named name e.type).2 ⟨e, he, hname⟩, he⟩

/-! ## Binding keeps the maps inverse

A registration that is new finds both its type and its name free. In a file, each one is bound to a
registry that holds those before it. -/

theorem Bijective.admits_of_isNew (h : r.Bijective) (hnew : r.isNew reg = .ok true) :
    r.Admits reg := by
  obtain ⟨hfree, hname⟩ := isNew_eq_true.1 hnew
  intro t e he
  have htype : t ≠ reg.type := by
    rintro rfl
    rw [hfree] at he
    cases he
  have hother : e.name ≠ reg.name := by
    intro hsame
    have ht : e.type = t := h.type t e he
    have hsome := h.named?_eq_some.2 ⟨ht.symm ▸ he, hsame⟩
    rw [hname] at hsome
    cases hsome
  exact ⟨fun ht ↦ absurd ht htype, fun hsame ↦ absurd hsame hother⟩

theorem Bijective.insert (h : r.Bijective) (hadmits : r.Admits reg) (file : Option String) :
    (r.insert reg file).Bijective where
  named name t := by
    rw [names_insert, get?_insert]
    by_cases hname : name = reg.name <;> by_cases ht : t = reg.type
    · rw [if_pos hname, if_pos ht, ht, hname]
      exact ⟨fun _ ↦ ⟨_, rfl, rfl⟩, fun _ ↦ rfl⟩
    · rw [if_pos hname, if_neg ht]
      refine ⟨fun heq ↦ absurd (Option.some.inj heq).symm ht, ?_⟩
      rintro ⟨e, he, rfl⟩
      exact absurd ((hadmits t e he).2 hname) ht
    · rw [if_neg hname, if_pos ht, h.named, ht]
      constructor
      · rintro ⟨e, he, rfl⟩
        exact absurd ((hadmits _ e he).1 rfl) hname
      · rintro ⟨e, he, rfl⟩
        obtain rfl := Option.some.inj he
        exact absurd rfl hname
    · rw [if_neg hname, if_neg ht]
      exact h.named name t
  type t e he := by
    rw [get?_insert] at he
    split at he
    · next ht =>
      obtain rfl := Option.some.inj he
      exact ht.symm
    · exact h.type t e he

theorem Admits.insert (h : r.Admits reg')
    (hpair : reg.type = reg'.type ↔ reg.name = reg'.name) (file : Option String) :
    (r.insert reg file).Admits reg' := by
  intro t e he
  rw [get?_insert] at he
  split at he
  · next ht =>
    obtain rfl := Option.some.inj he
    rw [ht]
    exact hpair
  · exact h t e he

theorem Bijective.insertEach (h : r.Bijective) (file : String) {regs : List Registration}
    (hadmits : ∀ reg ∈ regs, r.Admits reg)
    (hpairs : ∀ reg ∈ regs, ∀ reg' ∈ regs, reg.type = reg'.type ↔ reg.name = reg'.name) :
    (r.insertEach file regs).Bijective := by
  induction regs generalizing r with
  | nil => exact h
  | cons reg rest ih =>
    have hreg : reg ∈ reg :: rest := List.mem_cons_self
    have hrest : ∀ reg' ∈ rest, reg' ∈ reg :: rest := fun _ ↦ List.mem_cons_of_mem reg
    refine ih (h.insert (hadmits reg hreg) (some file)) (fun reg' h' ↦ ?_)
      fun reg₁ h₁ reg₂ h₂ ↦ hpairs reg₁ (hrest reg₁ h₁) reg₂ (hrest reg₂ h₂)
    exact (hadmits reg' (hrest reg' h')).insert (hpairs reg hreg reg' (hrest reg' h')) (some file)

/-- **Registering keeps the maps inverse.** -/
theorem Bijective.register (h : r.Bijective) (hreg : (r.register reg).result = .ok r') :
    r'.Bijective := by
  rcases register_eq_ok hreg with ⟨hnew, rfl⟩ | ⟨-, rfl⟩
  · exact h.insert (h.admits_of_isNew hnew) none
  · exact h

/-- **Registering a file keeps the maps inverse**, if those of its registrations that are for one
free type bear one name. -/
theorem Bijective.registerSchema (h : r.Bijective) {file : SchemaFile} {regs : List Registration}
    (hnames : ∀ reg ∈ r.fresh regs, ∀ reg' ∈ r.fresh regs, reg.type = reg'.type →
      reg.name = reg'.name)
    (hreg : (r.registerSchema file regs).result = .ok r') : r'.Bijective := by
  obtain ⟨haccepts, files, -, rfl⟩ := registerSchema_eq_ok.1 hreg
  have hadmits : ∀ reg ∈ r.fresh regs, r.Admits reg := by
    intro reg hfresh
    obtain ⟨hmem, hfree⟩ := mem_fresh.1 hfresh
    have hnew := haccepts.checked reg hmem
    rw [contains_eq_false.2 hfree] at hnew
    exact h.admits_of_isNew hnew
  have hbound := h.insertEach file.name hadmits fun reg h₁ reg' h₂ ↦
    ⟨hnames reg h₁ reg' h₂, haccepts.type reg (mem_fresh.1 h₁).1 reg' (mem_fresh.1 h₂).1⟩
  exact ⟨hbound.named, hbound.type⟩

/-! ## All ways to look up a binding agree -/

/-- Whether a binding is looked up by type or by name, in whole or in part, the same is found, and
decoding by type or by name runs the same marshaller. -/
structure Coherent (r : Registry) : Prop where
  /-- No two types share a name. -/
  distinct : ∀ t t' e e', r.get? t = some e → r.get? t' = some e' → e.name = e'.name → t = t'
  /-- The entry of a type is that of its name, and conversely. -/
  named : ∀ name e, r.named? name = some e ↔ ∃ t, r.get? t = some e ∧ e.name = name
  /-- The name and the marshaller of a type are those of its entry. -/
  bound : ∀ t name marshaller, r.bound? t = some (name, marshaller) ↔
    ∃ e, r.get? t = some e ∧ r.named? name = some e ∧ e.marshaller = marshaller
  /-- The descriptor of a name is that of its entry. -/
  described : ∀ name d, r.described? name = some d ↔
    ∃ t e, r.get? t = some e ∧ e.name = name ∧ e.descriptor = d
  /-- Both ways to decode look up the same marshaller. -/
  marshaller : ∀ t e, r.get? t = some e →
    (r.named? e.name).bind (·.marshaller.message?) = r.messageMarshaller? t
  /-- Decoding by type is decoding by name with a check of the instance's type behind it. -/
  decode : ∀ t e m, r.get? t = some e → e.marshaller = .message m → ∀ input,
    r.decodeNamed e.name input = r.readWith m ⟨input, 0⟩ ∧
      r.decode t input = do
        let i ← r.decodeNamed e.name input
        if i.type = t then return i else throw (.typeMismatch t.name)

theorem Bijective.coherent (h : r.Bijective) : r.Coherent := by
  have hentry : ∀ t e, r.get? t = some e → r.named? e.name = some e := by
    intro t e he
    have ht : e.type = t := h.type t e he
    exact h.named?_eq_some.2 ⟨ht.symm ▸ he, rfl⟩
  have hnamed : ∀ name e, r.named? name = some e ↔ ∃ t, r.get? t = some e ∧ e.name = name := by
    intro name e
    constructor
    · intro hname
      exact ⟨e.type, h.named?_eq_some.1 hname⟩
    · rintro ⟨t, he, rfl⟩
      exact hentry t e he
  have hmarshaller : ∀ t e, r.get? t = some e →
      (r.named? e.name).bind (·.marshaller.message?) = r.messageMarshaller? t := by
    intro t e he
    rw [hentry t e he, messageMarshaller?, he]
  refine ⟨?_, hnamed, ?_, ?_, hmarshaller, ?_⟩
  · intro t t' e e' he he' hsame
    have ht := (h.named e.name t).2 ⟨e, he, rfl⟩
    have ht' := (h.named e.name t').2 ⟨e', he', hsame.symm⟩
    exact Option.some.inj (ht.symm.trans ht')
  · intro t name marshaller
    rw [bound?, Option.map_eq_some_iff]
    constructor
    · rintro ⟨e, he, heq⟩
      cases heq
      exact ⟨e, he, hentry t e he, rfl⟩
    · rintro ⟨e, he, hname, rfl⟩
      exact ⟨e, he, by rw [(h.named?_eq_some.1 hname).2]⟩
  · intro name d
    rw [described?, Option.map_eq_some_iff]
    constructor
    · rintro ⟨e, hname, rfl⟩
      obtain ⟨t, he, hname⟩ := (hnamed name e).1 hname
      exact ⟨t, e, he, hname, rfl⟩
    · rintro ⟨t, e, he, hname, rfl⟩
      exact ⟨e, (hnamed name e).2 ⟨t, he, hname⟩, rfl⟩
  · intro t e m he hm input
    have hfound : r.messageMarshaller? t = some m := messageMarshaller?_eq_some.2 ⟨e, he, hm⟩
    have hread : r.decodeNamed e.name input = r.readWith m ⟨input, 0⟩ := by
      rw [decodeNamed, hmarshaller t e he, hfound]
    exact ⟨hread, by rw [decode, hfound, hread]⟩

end Registry

end ProtoSchema
