import ProtoSchema.Proofs.Codec.Instance

/-!
# Messages read by a version of their type

A message type is a version of another one when each of its fields is a field of the other type,
described alike. What a version reads of a sent instance is a function of what the sendings fill:
its own fields are handed over, all others are retained as they came, in front of the unknown fields
that the instance retained itself. A type is a version of itself, for which nothing new is retained.
-/

set_option autoImplicit false

namespace ProtoSchema

open Wire

/-- The writer of instances that nest less deeply than `x`. -/
def Registry.writeBelow (reg : Registry) (x : Instance) : NestedWriter := fun inner j ↦
  if j.depth < x.depth then reg.write inner j else .error (.instanceMismatch inner.path)

theorem Registry.write_eq (reg : Registry) (m : MessageMarshaller) (x : Instance) :
    reg.write m x = m.encodeWith reg (reg.writeBelow x) x := by
  rw [Registry.write]
  rfl

section

variable {reg : Registry} {nested : NestedReader} {R : Instance → Instance → Prop}
  {P : TypeId → Instance → Prop} {m : MessageMarshaller} {x : Instance}

theorem Plan.Fits.writeBelow {l : Layout} {p : Plan} {path : List Nat} {v : Value}
    (hv : l.get? x path = some v) (hfit : p.Fits reg (Trips reg reg.write nested R) v) :
    p.Fits reg (Trips reg (reg.writeBelow x) nested R) v := by
  refine hfit.mono fun t i _ hi h inner hinner ↦ ?_
  have hle := Value.depth_le_of_mem_instances hi
  rw [Registry.writeBelow, if_pos (Nat.lt_of_le_of_lt hle (Layout.depth_lt_of_get? hv))]
  exact h inner hinner

/-- Members that fit when the instances below them make the trip. -/
theorem MessageMarshaller.Admits.fits_trips (hx : m.Admits reg P x)
    (hP : ∀ p ∈ m.plans, ∀ t i, p.element = .message t → P t i →
      Trips reg reg.write nested R t i) :
    ∀ p ∈ m.plans, ∃ v, m.layout.get? x p.path = some v ∧
      p.Fits reg (Trips reg (reg.writeBelow x) nested R) v := by
  intro p hp
  obtain ⟨v, hv, hfit⟩ := hx.fits p hp
  exact ⟨v, hv, .writeBelow hv (hfit.mono fun t i ht _ ↦ hP p hp t i ht)⟩

/-! ## The sendings of an instance

Each plan has one sending, with the number of the plan. Whatever the instance shows of a member is
what its sending fills, so the sendings say all about the instance that a reader may learn. -/

namespace MessageMarshaller.Sends

variable {sendings : List Sending} {p : Plan}

theorem mem (h : m.Sends reg nested R x sendings) {s : Sending} (hs : s ∈ sendings) :
    s.plan ∈ m.plans :=
  h.plans ▸ List.mem_map.2 ⟨s, hs, rfl⟩

theorem exists_of_mem (h : m.Sends reg nested R x sendings) (hp : p ∈ m.plans) :
    ∃ s ∈ sendings, s.plan = p := by
  rw [← h.plans] at hp
  exact List.mem_map.1 hp

theorem nodup (h : m.Sends reg nested R x sendings) (hm : m.WellFormed) :
    (sendings.map (·.plan.field.number)).Nodup := by
  have hn := hm.numbers
  rwa [HasDistinctNumbers, ← h.plans, List.map_map] at hn

theorem handed_filledAt (h : m.Sends reg nested R x sendings) (hm : m.WellFormed)
    (hp : p ∈ m.plans) {v : Value} (hv : m.layout.get? x p.path = some v) :
    Option.Rel (Value.Same R) (p.handed v) (filledAt sendings p.field.number) := by
  obtain ⟨s, hs, rfl⟩ := h.exists_of_mem hp
  obtain rfl := Option.some.inj ((h.get s hs).symm.trans hv)
  rw [filledAt_of_mem (h.nodup hm) hs]
  exact (h.valid s hs).handed

theorem exclusive (h : m.Sends reg nested R x sendings) (hx : m.Admits reg P x) :
    Exclusive sendings :=
  fun s hs t ht g hg hg' hv hw ↦ hx.exclusive _ (h.mem hs) _ (h.mem ht) g _ _ hg hg' (h.get s hs)
    (h.get t ht) hv hw

/-- The values that the factories of an instance's own type are handed are what its members are
expected to hand over. -/
theorem handed_hand (h : m.Sends reg nested R x sendings) (hm : m.WellFormed) :
    ∀ p ∈ m.plans, ∀ v, m.layout.get? x p.path = some v →
      Option.Rel (Value.Same R) (p.handed v) (m.hand (filledAt sendings) p.path) := by
  intro p hp v hv
  rw [hm.hand_path hp]
  exact h.handed_filledAt hm hp hv

end MessageMarshaller.Sends

/-! ## Versions -/

/-- Every field of a version is a field of the other type, described alike. -/
def MessageMarshaller.VersionOf (m₁ m₂ : MessageMarshaller) : Prop :=
  ∀ q ∈ m₁.plans, ∃ p ∈ m₂.plans, p.Agrees q

theorem MessageMarshaller.VersionOf.refl (m : MessageMarshaller) : m.VersionOf m :=
  fun q hq ↦ ⟨q, hq, .refl q⟩

variable {m₁ m₂ : MessageMarshaller}

/-- The plans of a version agree with those of the other type that have their number. -/
theorem MessageMarshaller.VersionOf.agrees (h : m₁.VersionOf m₂) (hm₂ : m₂.WellFormed) {p q : Plan}
    (hp : p ∈ m₂.plans) (hq : q ∈ m₁.plans) (hn : q.field.number = p.field.number) :
    p.Agrees q := by
  obtain ⟨p', hp', ha⟩ := h q hq
  rwa [hm₂.numbers.eq_of_number hp hp' (hn.symm.trans ha.number)]

/-- **What a version reads.** Its own fields are filled by the sendings with their numbers, and the
other sendings are retained. -/
theorem decodeWith_version (hm₁ : m₁.WellFormed) (hm₂ : m₂.WellFormed) (hver : m₁.VersionOf m₂)
    (hx : m₂.Admits reg P x) {sendings : List Sending} (h : m₂.Sends reg nested R x sendings) :
    (m₁.decodeWith reg nested (sendings.flatMap (·.bytes) ++ (m₂.retained x).bytes)).result
      = (m₁.layout.assemble (m₁.hand (filledAt sendings)) []
          ⟨(m₁.unknownTo sendings).flatMap (·.bytes)
            ++ (m₂.retained x).bytes⟩).mapError .factory := by
  obtain ⟨rs, hrs, hfresh⟩ := hx.retained
  refine decodeWith_sendings hm₁ h.valid (h.nodup hm₂)
    (fun s hs q hq hn ↦ hver.agrees hm₂ (h.mem hs) hq hn) (fun q hq ↦ ?_) (h.exclusive hx) hrs
    fun r hr ↦ ?_
  · obtain ⟨p, hp, ha⟩ := hver q hq
    obtain ⟨s, hs, rfl⟩ := h.exists_of_mem hp
    exact ⟨s, hs, ha.number.symm⟩
  · refine MessageMarshaller.plan?_eq_none_of_forall fun q hq ↦ ?_
    obtain ⟨p, hp, ha⟩ := hver q hq
    rw [ha.number]
    exact hfresh r hr p hp

theorem MessageMarshaller.unknownTo_eq_nil (hm : m.WellFormed) {sendings : List Sending}
    (h : ∀ s ∈ sendings, ∃ p ∈ m.plans, p.field.number = s.plan.field.number) :
    m.unknownTo sendings = [] := by
  refine List.filter_eq_nil_iff.2 fun s hs ↦ ?_
  obtain ⟨p, hp, hn⟩ := h s hs
  obtain ⟨k, hk⟩ := List.mem_iff_getElem?.1 hp
  rw [← hn, plan?_of_getElem? hm.numbers hk]
  exact Bool.false_ne_true

/-- What the type itself reads. -/
theorem decodeWith_self (hm : m.WellFormed) (hx : m.Admits reg P x) {sendings : List Sending}
    (h : m.Sends reg nested R x sendings) :
    (m.decodeWith reg nested (sendings.flatMap (·.bytes) ++ (m.retained x).bytes)).result
      = (m.layout.assemble (m.hand (filledAt sendings)) [] (m.retained x)).mapError .factory := by
  rw [decodeWith_version hm hm (.refl m) hx h,
    MessageMarshaller.unknownTo_eq_nil hm fun s hs ↦ ⟨s.plan, h.mem hs, rfl⟩]
  rfl

end

end ProtoSchema
