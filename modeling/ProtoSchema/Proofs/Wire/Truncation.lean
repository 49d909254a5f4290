import ProtoSchema.Proofs.Wire.Split

/-!
# Input that ends too early

A step that reads a chunk must not take a beginning of the chunk for anything else. `NoticesCuts`
asks this of a local step: where the input stops before the chunk does, the step fails, says that
bytes are missing, and asks for at least one and for no more than were cut off. A step can ask for
too few, since the length of what follows may be among the missing bytes.

A cut falls into the first of two steps or into the second, and then the first one reads what it
would have read, because it is local. So the property passes from steps to their sequences, and only
varints and runs of a known length have to be looked at.
-/

set_option autoImplicit false

namespace ProtoSchema.Wire

/-- A local step that fails for missing bytes wherever what it reads is cut short, and asks for no
more bytes than were cut off. -/
structure NoticesCuts {α : Type} (step : Bytes → Except WireError (α × Bytes)) : Prop where
  isLocal : Local step
  notices : ∀ cut more a rest, step (cut ++ more) = .ok (a, rest) → rest.length < more.length →
    ∃ needed, 1 ≤ needed ∧ needed ≤ more.length - rest.length ∧
      step cut = .error (.truncated needed)

namespace NoticesCuts

variable {α β : Type} {step : Bytes → Except WireError (α × Bytes)}

theorem lift (x : Except WireError β) :
    NoticesCuts fun rest ↦ x >>= fun b ↦ Pure.pure (b, rest) where
  isLocal := .lift x
  notices cut more b rest h hlt := by
    obtain ⟨b', -, h⟩ := bind_eq_ok.1 h
    obtain ⟨-, rfl⟩ := Prod.mk.inj (Except.ok.inj h)
    rw [List.length_append] at hlt
    omega

theorem pure (b : β) :
    NoticesCuts fun rest ↦ (Pure.pure (b, rest) : Except WireError (β × Bytes)) :=
  lift (.ok b)

/-- A cut falls into the first step or into the second. -/
theorem bind {f : α × Bytes → Except WireError (β × Bytes)} (h : NoticesCuts step)
    (hf : ∀ a, NoticesCuts fun left ↦ f (a, left)) : NoticesCuts fun input ↦ step input >>= f where
  isLocal := h.isLocal.bind fun a ↦ (hf a).isLocal
  notices cut more b rest hall hlt := by
    obtain ⟨⟨a, left⟩, ha, hb⟩ := bind_eq_ok.1 hall
    by_cases hleft : left.length < more.length
    · -- The first step is cut: what it misses is part of what both miss.
      have hrest := ((hf a).isLocal.suffix hb).length_le
      obtain ⟨needed, hpos, hle, herror⟩ := h.notices cut more a left ha hleft
      refine ⟨needed, hpos, by omega, ?_⟩
      simp only [herror, error_bind]
    · -- The first step is whole, and leaves the second one with the cut.
      obtain ⟨chunk, hchunk, hyields⟩ := h.isLocal _ a left ha
      obtain ⟨mid, rfl, rfl⟩ : ∃ mid, cut = chunk ++ mid ∧ left = mid ++ more := by
        rcases List.append_eq_append_iff.1 hchunk with ⟨mid, rfl, rfl⟩ | ⟨mid, rfl, rfl⟩
        · obtain rfl : mid = [] := by
            rw [← List.length_eq_zero_iff]
            rw [List.length_append] at hleft
            omega
          exact ⟨[], by simp, by simp⟩
        · exact ⟨mid, rfl, rfl⟩
      obtain ⟨needed, hpos, hle, herror⟩ := (hf a).notices mid more b rest hb hlt
      refine ⟨needed, hpos, hle, ?_⟩
      simp only [hyields mid, ok_bind, herror]

end NoticesCuts

/-! ## Varints -/

namespace Varint

theorem continues_of_decodeGroups {room n : Nat} {cut more rest : Bytes}
    (h : decodeGroups room (cut ++ more) = some (n, rest)) (hlt : rest.length < more.length) :
    cut.length < room ∧ allContinue cut = true := by
  induction room generalizing cut n with
  | zero => cases h
  | succ room ih =>
    cases cut with
    | nil => exact ⟨Nat.succ_pos room, rfl⟩
    | cons b tail =>
      rw [List.cons_append, decodeGroups] at h
      by_cases hb : b.toNat < 128
      · rw [if_pos hb] at h
        obtain ⟨-, rfl⟩ := Prod.mk.inj (Option.some.inj h)
        rw [List.length_append] at hlt
        omega
      · rw [if_neg hb] at h
        obtain ⟨⟨high, left⟩, hgroups, h⟩ := Option.map_eq_some_iff.1 h
        obtain ⟨-, rfl⟩ := Prod.mk.inj h
        obtain ⟨hroom, hcontinue⟩ := ih hgroups
        refine ⟨Nat.succ_lt_succ hroom, ?_⟩
        rw [allContinue] at hcontinue ⊢
        rw [List.all_cons, hcontinue, decide_eq_true (Nat.le_of_not_lt hb), Bool.and_true]

theorem noticesCuts_decode : NoticesCuts decode where
  isLocal := local_decode
  notices cut more w rest h hlt := by
    unfold decode at h
    split at h
    · cases h
    · split at h
      · next n left hgroups =>
        obtain ⟨-, h⟩ := ite_ok_eq_ok.1 h
        obtain ⟨-, rfl⟩ := Prod.mk.inj (Except.ok.inj h)
        obtain ⟨hlength, hcontinue⟩ := continues_of_decodeGroups hgroups hlt
        refine ⟨1, Nat.le_refl 1, by omega, ?_⟩
        rw [decode, hcontinue, decide_eq_true hlength, Bool.and_true, if_pos rfl]
      · cases h

end Varint

/-! ## Tags, payloads and records -/

theorem noticesCuts_take (n : Nat) : NoticesCuts (take n) where
  isLocal := local_take n
  notices cut more chunk rest h hlt := by
    obtain ⟨hlength, hinput⟩ := take_length h
    have hsum := congrArg List.length hinput
    rw [List.length_append, List.length_append] at hsum
    refine ⟨n - cut.length, by omega, by omega, ?_⟩
    rw [take, if_pos (by omega)]

theorem NoticesCuts.readAs {α β : Type} {reader : Bytes → Except WireError (α × Bytes)}
    (h : NoticesCuts reader) (make : α → β) : NoticesCuts (readAs reader make) :=
  h.bind fun a ↦ .pure (make a)

theorem noticesCuts_readFixed32 : NoticesCuts readFixed32 := (noticesCuts_take 4).readAs _

theorem noticesCuts_readFixed64 : NoticesCuts readFixed64 := (noticesCuts_take 8).readAs _

theorem noticesCuts_readLengthDelimited : NoticesCuts readLengthDelimited :=
  Varint.noticesCuts_decode.bind fun length ↦ noticesCuts_take length.toNat

theorem Tag.noticesCuts_decode : NoticesCuts decode :=
  Varint.noticesCuts_decode.bind fun key ↦ .lift (ofKey key)

theorem Payload.noticesCuts_decode (w : WireType) : NoticesCuts (Payload.decode w) := by
  cases w with
  | varint => exact Varint.noticesCuts_decode.readAs _
  | fixed64 => exact noticesCuts_readFixed64.readAs _
  | lengthDelimited => exact noticesCuts_readLengthDelimited.readAs _
  | fixed32 => exact noticesCuts_readFixed32.readAs _

theorem Record.noticesCuts_decode : NoticesCuts Record.decode :=
  Tag.noticesCuts_decode.bind fun tag ↦ (Payload.noticesCuts_decode tag.wireType).bind
    fun payload ↦ .pure (⟨tag.number, payload⟩ : Record)

end ProtoSchema.Wire
