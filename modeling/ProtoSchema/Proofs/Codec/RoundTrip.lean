import ProtoSchema.Proofs.Codec.Decoding
import ProtoSchema.Proofs.Codec.Storing
import ProtoSchema.Proofs.Codec.Version

/-!
# Round trips through one type

An instance that is well typed for a registered message type is written, and what is written is
read back as an instance with the same members. The induction is on the levels that nested messages
may still open: one step of it goes through the plans of a single type and assumes of nested
instances only that they make the trip.

Writing always succeeds. Reading asks for bytes whose number is a 64-bit word, since that is how
lengths travel.
-/

set_option autoImplicit false

namespace ProtoSchema

open Wire

section

variable {reg : Registry} {nested : NestedReader} {R : Instance → Instance → Prop}
  {P : TypeId → Instance → Prop} {m : MessageMarshaller} {x : Instance}

/-- One level of a round trip. Members come back as their plans hand them over, and nested instances
come back as `R` says of them. -/
theorem roundTrip_step (hm : m.WellFormed) (hres : ∀ p ∈ m.plans, p.element.Resolved reg)
    (hR : ∀ i j, R i j → j.type = i.type) (hx : m.Admits reg P x) (hstores : m.StoresBack x)
    (hP : ∀ p ∈ m.plans, ∀ t i, p.element = .message t → P t i →
      Trips reg reg.write nested R t i) :
    ∃ b, reg.write m x = .ok b ∧ (b.length < UInt64.size →
      ∃ y, (m.decodeWith reg nested b).result = .ok y ∧ m.Returns R x y) := by
  have hfit := hx.fits_trips hP
  obtain ⟨b, hb, hsend⟩ := exists_sendings hm hres hx.type hfit
  refine ⟨b ++ (m.retained x).bytes, by rw [Registry.write_eq, hb], fun hl ↦ ?_⟩
  rw [List.length_append] at hl
  obtain ⟨sendings, rfl, hsent⟩ := hsend (by omega)
  have hhand := hsent.handed_hand hm
  obtain ⟨y, hy, hytype, hyret, hshows⟩ := (hstores _ fun p hp v hv ↦
    rel_mono (fun _ _ h ↦ h.mono hR) (hhand p hp v hv)).exists_assemble hm.fields
  refine ⟨y, ?_, hytype, hyret, fun p hp ↦ ?_⟩
  · rw [decodeWith_self hm hx hsent, hy, mapError_ok]
  · obtain ⟨v, hv, hfit⟩ := hfit p hp
    obtain ⟨w, hw, hshow⟩ := hshows p hp
    exact ⟨v, w, hv, hw, Plan.returned_of_shows (hm.plans p hp) hfit (hhand p hp v hv) hshow⟩

end

/-- Well-typed instances make the round trip at every level of nesting. -/
theorem Registry.Closed.roundTrip {reg : Registry} (hreg : reg.Closed) (levels : Nat)
    {t : TypeId} {m : MessageMarshaller} {x : Instance} (hm : reg.messageMarshaller? t = some m)
    (hx : reg.WellTyped levels m x) :
    ∃ b, reg.write m x = .ok b ∧ (b.length < UInt64.size →
      ∃ y, (reg.decodeAt levels m b).result = .ok y ∧ reg.SameAt levels m x y) := by
  have hwf := hreg.wellFormed t m hm
  have hres := hreg.resolved t m hm
  induction levels generalizing t m x with
  | zero =>
    rw [Registry.WellTyped] at hx
    simp only [Registry.decodeAt_eq, Registry.SameAt]
    exact roundTrip_step hwf hres (fun _ _ h ↦ h.elim) hx.1 hx.2 fun _ _ _ _ _ h ↦ h.elim
  | succ levels ih =>
    rw [Registry.WellTyped] at hx
    simp only [Registry.decodeAt_eq, Registry.SameAt]
    refine roundTrip_step hwf hres ?_ hx.1 hx.2 fun _ _ target i _ h inner hinner ↦ ?_
    · rintro i j ⟨inner, hinner, hsame⟩
      rw [hsame.type, hreg.type_eq hinner]
    · have hi := h inner hinner
      obtain ⟨b, hb, hread⟩ := ih hinner hi (hreg.wellFormed _ _ hinner) (hreg.resolved _ _ hinner)
      refine ⟨b, hb, fun hl ↦ ⟨_, rfl, ?_⟩⟩
      obtain ⟨j, hj, hsame⟩ := hread hl
      refine ⟨j, hj, inner, ?_, hsame⟩
      rw [hi.type, hreg.type_eq hinner, hinner]

/-! ## From the top

Decoding reads with all levels of nesting left, and checks what type the factory built. -/

theorem Registry.decode_eq_ok {reg : Registry} {t : TypeId} {m : MessageMarshaller} {b : Bytes}
    {y : Instance} (hm : reg.messageMarshaller? t = some m) :
    (reg.decode t b).result = .ok y ↔
      (reg.decodeAt nestingLimit m b).result = .ok y ∧ y.type = t := by
  unfold decode
  rw [hm]
  constructor
  · intro h
    obtain ⟨i, hi, h⟩ := Logged.bind_eq_ok.1 h
    split at h
    · next ht =>
      cases h
      exact ⟨hi, ht⟩
    · cases h
  · rintro ⟨hy, ht⟩
    refine Logged.bind_eq_ok.2 ⟨y, hy, ?_⟩
    rw [if_pos ht]
    rfl

theorem Registry.decode_eq_error {reg : Registry} {t : TypeId} {m : MessageMarshaller} {b : Bytes}
    {e : DecodeError} (hm : reg.messageMarshaller? t = some m)
    (h : (reg.decodeAt nestingLimit m b).result = .error e) :
    (reg.decode t b).result = .error e := by
  unfold decode
  rw [hm, Logged.result_bind, show (reg.readWith m ⟨b, 0⟩).result = .error e from h, error_bind]

/-- **Round trip.** A well-typed instance of a compiled message type is encoded, and what is encoded
is decoded as an instance with the same members, through all levels of nesting. -/
theorem Registry.Compiled.decode_encode {reg : Registry} (hreg : reg.Compiled) {t : TypeId}
    {m : MessageMarshaller} {x : Instance} (hm : reg.messageMarshaller? t = some m)
    (hx : reg.WellTyped nestingLimit m x) :
    ∃ b, reg.encode x = .ok b ∧ (b.length < UInt64.size →
      ∃ y, (reg.decode t b).result = .ok y ∧ reg.SameAt nestingLimit m x y) := by
  have ht := hreg.closed.type_eq hm
  obtain ⟨b, hb, hread⟩ := hreg.closed.roundTrip nestingLimit hm hx
  refine ⟨b, by rw [encode, hx.type, ht, hm]; exact hb, fun hl ↦ ?_⟩
  obtain ⟨y, hy, hsame⟩ := hread hl
  exact ⟨y, (decode_eq_ok hm).2 ⟨hy, hsame.type.trans ht⟩, hsame⟩

/-- The account with a nested owner and a retained record makes the round trip. -/
theorem Bank.decode_encode_sample :
    ∃ m, registry.messageMarshaller? account = some m ∧
      registry.WellTyped nestingLimit m sample ∧
        ∃ b, registry.encode sample = .ok b ∧ (b.length < UInt64.size →
          ∃ y, (registry.decode account b).result = .ok y ∧
            registry.SameAt nestingLimit m sample y) := by
  obtain ⟨m, hm, -⟩ := exists_account
  exact ⟨m, hm, wellTyped_sample hm,
    compiled_registry.decode_encode hm (wellTyped_sample hm)⟩

end ProtoSchema
