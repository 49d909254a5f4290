import ProtoSchema.Proofs.Codec.Message
import ProtoSchema.Proofs.Registry.Register

/-!
# Closed registries

What reading and writing rely on in a registry: every type is bound to a marshaller of its own and
of the sort that its descriptor says, the message marshallers are well formed, and whatever their
plans refer to is registered.
-/

set_option autoImplicit false

namespace ProtoSchema

/-- A registry whose message types are well formed and refer to registered types only. -/
structure Registry.Closed (reg : Registry) : Prop where
  type : ∀ t e, reg.get? t = some e → e.marshaller.type = t
  sort : ∀ t e, reg.get? t = some e → e.descriptor.sort = e.marshaller.sort
  wellFormed : ∀ t m, reg.messageMarshaller? t = some m → m.WellFormed
  resolved : ∀ t m, reg.messageMarshaller? t = some m → ∀ p ∈ m.plans, p.element.Resolved reg

/-- A type is bound to an entry of the name, with a marshaller of the sort. -/
def Registry.Registers (reg : Registry) (t : TypeId) (name : String) (sort : TypeSort) : Prop :=
  ∃ e, reg.get? t = some e ∧ e.name = name ∧ e.marshaller.sort = sort

variable {reg reg' : Registry}

theorem Registry.Registers.mono (hextends : reg'.Extends reg) {t : TypeId} {name : String}
    {sort : TypeSort} (h : reg.Registers t name sort) : reg'.Registers t name sort := by
  obtain ⟨e, he, hname, hsort⟩ := h
  exact ⟨e, hextends t e he, hname, hsort⟩

theorem Marshaller.message?_eq_some {marshaller : Marshaller} {m : MessageMarshaller} :
    marshaller.message? = some m ↔ marshaller = .message m := by
  cases marshaller <;> simp [message?]

theorem Registry.messageMarshaller?_eq_some {t : TypeId} {m : MessageMarshaller} :
    reg.messageMarshaller? t = some m ↔ ∃ e, reg.get? t = some e ∧ e.marshaller = .message m := by
  rw [messageMarshaller?, Option.bind_eq_some_iff]
  exact exists_congr fun e ↦ and_congr_right fun _ ↦ Marshaller.message?_eq_some

theorem Registry.enumMarshaller?_eq_some {t : TypeId} {m : EnumMarshaller} :
    reg.enumMarshaller? t = some m ↔ ∃ e, reg.get? t = some e ∧ e.marshaller = .enum m := by
  rw [enumMarshaller?, Option.bind_eq_some_iff]
  refine exists_congr fun e ↦ and_congr_right fun _ ↦ ?_
  cases e.marshaller <;> simp [Marshaller.enum?]

theorem Registry.Closed.type_eq (hreg : reg.Closed) {t : TypeId} {m : MessageMarshaller}
    (h : reg.messageMarshaller? t = some m) : m.type = t := by
  obtain ⟨e, he, hm⟩ := Registry.messageMarshaller?_eq_some.1 h
  have := hreg.type t e he
  rwa [hm] at this

theorem Element.Resolved.mono (h : reg'.Extends reg) {e : Element} (he : e.Resolved reg) :
    e.Resolved reg' := by
  cases e with
  | scalar s => trivial
  | enum target isOpen =>
    obtain ⟨m, hm⟩ := he
    obtain ⟨entry, hentry, hm⟩ := Registry.enumMarshaller?_eq_some.1 hm
    exact ⟨m, Registry.enumMarshaller?_eq_some.2 ⟨entry, h _ _ hentry, hm⟩⟩
  | message target =>
    obtain ⟨m, hm⟩ := he
    obtain ⟨entry, hentry, hm⟩ := Registry.messageMarshaller?_eq_some.1 hm
    exact ⟨m, Registry.messageMarshaller?_eq_some.2 ⟨entry, h _ _ hentry, hm⟩⟩

theorem Registry.closed_empty : Registry.empty.Closed where
  type _ _ h := by cases h
  sort _ _ h := by cases h
  wellFormed _ _ h := by cases h
  resolved _ _ h := by cases h

end ProtoSchema
