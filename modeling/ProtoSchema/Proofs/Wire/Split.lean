import ProtoSchema.Proofs.Wire.Record

/-!
# Cutting input into pieces

Input is cut where a step stops reading, and each piece is noted with what was read from it. A local
step reads a piece alike wherever it stands, so pieces may be put elsewhere, and bytes that are put
together from records are cut back into these records. That is what the tags of unknown fields rely
on.
-/

set_option autoImplicit false

namespace ProtoSchema.Wire

section

variable {ε α : Type}

/-- The pieces that a step reads one behind the other, each with what was read from it, up to the
first that is malformed. -/
def split (step : Bytes → Except ε (α × Bytes)) (input : Bytes) : List (Bytes × α) :=
  match step input with
  | .error _ => []
  | .ok (a, rest) =>
    if rest.length < input.length then
      (input.take (input.length - rest.length), a) :: split step rest
    else []
termination_by input.length

variable {step : Bytes → Except ε (α × Bytes)}

theorem split_nil (step : Bytes → Except ε (α × Bytes)) : split step [] = [] := by
  rw [split]
  split
  · rfl
  · exact if_neg (Nat.not_lt_zero _)

theorem split_step {input rest : Bytes} {a : α} (h : step input = .ok (a, rest))
    (hlt : rest.length < input.length) :
    split step input = (input.take (input.length - rest.length), a) :: split step rest := by
  rw [split, h]
  exact if_pos hlt

/-- The pieces that a local step reads are read alike wherever they stand. -/
theorem Local.yields_of_mem_split (h : Local step) {input : Bytes} {piece : Bytes × α}
    (hpiece : piece ∈ split step input) : Yields step piece.1 piece.2 := by
  induction hn : input.length using Nat.strongRecOn generalizing input with
  | ind n ih =>
    cases hstep : step input with
    | error e =>
      rw [split, hstep] at hpiece
      cases hpiece
    | ok p =>
      obtain ⟨a, rest⟩ := p
      by_cases hlt : rest.length < input.length
      · rw [split_step hstep hlt] at hpiece
        rcases List.mem_cons.1 hpiece with rfl | hpiece
        · exact (h.yields hstep).2
        · exact ih rest.length (hn ▸ hlt) hpiece rfl
      · rw [split, hstep] at hpiece
        simp only [if_neg hlt, List.not_mem_nil] at hpiece

end

/-! ## Records

The first tag of some bytes is that of the first record, if there is one. What is behind the first
thing that is no record is not looked at. -/

/-- Bytes are records if cutting them into records leaves nothing, and then they are those that are
cut off. -/
theorem records_iff {input : Bytes} {rs : List Record} :
    Records input rs ↔ (split Record.decode input).flatMap (·.1) = input ∧
      (split Record.decode input).map (·.2) = rs := by
  constructor
  · intro h
    induction h with
    | nil =>
      rw [split_nil]
      exact ⟨rfl, rfl⟩
    | @cons input rest r rs head _ ih =>
      obtain ⟨hrest, hrs⟩ := ih
      rw [split_step head (Record.decode_length head), List.flatMap_cons, List.map_cons, hrest, hrs]
      exact ⟨((Record.local_decode.yields head).1).symm, rfl⟩
  · rintro ⟨hinput, rfl⟩
    induction hn : input.length using Nat.strongRecOn generalizing input with
    | ind n ih =>
      cases hstep : Record.decode input with
      | error e =>
        have hsplit : split Record.decode input = [] := by rw [split, hstep]
        rw [hsplit] at hinput ⊢
        obtain rfl : [] = input := hinput
        exact .nil
      | ok found =>
        obtain ⟨r, rest⟩ := found
        have hlt := Record.decode_length hstep
        rw [split_step hstep hlt, List.map_cons]
        rw [split_step hstep hlt, List.flatMap_cons] at hinput
        have hwhole := (Record.local_decode.yields hstep).1
        exact .cons hstep (ih rest.length (hn ▸ hlt) (List.append_cancel_left (hinput.trans hwhole))
          rfl)

theorem Payload.wireType_of_decode {w : WireType} {input rest : Bytes} {p : Payload}
    (h : Payload.decode w input = .ok (p, rest)) : p.wireType = w := by
  cases w <;>
  · obtain ⟨a, -, rfl⟩ := readAs_eq_ok.1 h
    rfl

theorem Payload.decode_varint {input rest : Bytes} {p : Payload}
    (h : Payload.decode .varint input = .ok (p, rest)) :
    ∃ w, p = .varint w ∧ Varint.decode input = .ok (w, rest) := by
  obtain ⟨w, hw, rfl⟩ := readAs_eq_ok.1 h
  exact ⟨w, rfl, hw⟩

theorem Payload.decode_frame {input rest : Bytes} {p : Payload}
    (h : Payload.decode .lengthDelimited input = .ok (p, rest)) :
    ∃ frame, p = .bytes frame ∧ readLengthDelimited input = .ok (frame, rest) := by
  obtain ⟨frame, hframe, rfl⟩ := readAs_eq_ok.1 h
  exact ⟨frame, rfl, hframe⟩

theorem Payload.decode_of_word {input rest : Bytes} {w : UInt64}
    (h : Varint.decode input = .ok (w, rest)) :
    Payload.decode .varint input = .ok (.varint w, rest) :=
  readAs_eq_ok.2 ⟨w, h, rfl⟩

theorem Payload.decode_of_frame {input rest frame : Bytes}
    (h : readLengthDelimited input = .ok (frame, rest)) :
    Payload.decode .lengthDelimited input = .ok (.bytes frame, rest) :=
  readAs_eq_ok.2 ⟨frame, h, rfl⟩

end ProtoSchema.Wire
