import ProtoSchema.Proofs.Codec.Inversion
import ProtoSchema.Proofs.Codec.Sent

/-!
# Records are read alike wherever they stand

A reader of fields looks at nothing but the bytes that it reads: neither at what came before them
nor at what follows. For scalars and elements this passes from step to step. A record may be
retained as it came, which is said by what its reader consumed, so there the taking apart of the
reader is used: what it comes to holds of the same bytes in front of any other input.
-/

set_option autoImplicit false

namespace ProtoSchema

open Wire

namespace Scalar

theorem local_read (s : Scalar) (number : Nat) : Local fun input ↦ s.read number input := by
  cases s <;> simp only [read]
  case int32 | sint32 | int64 | sint64 | uint32 | uint64 | bool =>
    exact Varint.local_decode.readAs _
  case sfixed32 | fixed32 | float => exact local_readFixed32.readAs _
  case sfixed64 | fixed64 | double => exact local_readFixed64.readAs _
  case string =>
    refine local_readLengthDelimited.bind fun b ↦ ?_
    dsimp only
    split
    · next text _ => exact .pure (Value.string text)
    · exact .error (WireError.invalidUtf8 number)
  case bytes => exact local_readLengthDelimited.readAs _

end Scalar

section

variable {reg : Registry} {nested : NestedReader} {p : Plan} {m : MessageMarshaller}

theorem local_readElement : Local fun input ↦ (readElement reg nested p input).result := by
  cases he : p.element with
  | scalar s =>
    simp only [readElement, he, Logged.result_bind, result_ofWire, Logged.result_pure]
    exact ((s.local_read _).mapError _).bind fun v ↦ .pure (Reading.accepted v)
  | enum target isOpen =>
    simp only [readElement, he, Logged.result_bind, result_ofWire, Logged.result_pure]
    exact (Varint.local_decode.mapError _).bind fun w ↦
      .lift (reg.judgeNumber p target isOpen w.toUInt32.toInt32)
  | message target =>
    simp only [readElement, he, Logged.result_bind, result_ofWire]
    refine (local_readLengthDelimited.mapError _).bind fun frame ↦ ?_
    split
    · exact .error _
    · simp only [Logged.result_bind, Logged.result_pure]
      exact .after _ fun inner ↦ .after _ fun i ↦ .pure (Reading.accepted (.message i))

/-! ## Records

A record that is retained is the bytes between the tag and what is left, so to read it elsewhere is
to retain the same bytes. All other records leave no trace of where they stood. -/

variable {tag : Tag} {input afterTag rest : Bytes} {e : Effect} {index : Nat}

theorem Plan.ReadsRecordAs.relocate
    (h : p.ReadsRecordAs reg nested index tag input afterTag rest e) :
    ∃ chunk, afterTag = chunk ++ rest ∧
      ∀ input' rest', consumed input' rest' = consumed input rest →
      p.ReadsRecordAs reg nested index tag input' (chunk ++ rest') rest' e := by
  cases h with
  | entry hc hw hframe hentry =>
    obtain ⟨chunk, rfl, hchunk⟩ := local_readLengthDelimited _ _ _ hframe
    exact ⟨chunk, rfl, fun _ rest' _ ↦ .entry hc hw (hchunk rest') hentry⟩
  | spoiledEntry hc hw hframe hentry =>
    obtain ⟨chunk, rfl, hchunk⟩ := local_readLengthDelimited _ _ _ hframe
    exact ⟨chunk, rfl, fun _ rest' hsame ↦ hsame ▸ .spoiledEntry hc hw (hchunk rest') hentry⟩
  | packed hc hw hrun hframe hreadings =>
    obtain ⟨chunk, rfl, hchunk⟩ := local_readLengthDelimited _ _ _ hframe
    exact ⟨chunk, rfl, fun _ rest' _ ↦ .packed hc hw hrun (hchunk rest') hreadings⟩
  | element hc hw hread =>
    obtain ⟨chunk, rfl, hchunk⟩ := local_readElement _ _ _ hread
    exact ⟨chunk, rfl, fun _ rest' _ ↦ .element hc hw (hchunk rest')⟩
  | single hc hw hread =>
    obtain ⟨chunk, rfl, hchunk⟩ := local_readElement _ _ _ hread
    exact ⟨chunk, rfl, fun _ rest' _ ↦ .single hc hw (hchunk rest')⟩
  | rejected hc hw hread =>
    obtain ⟨chunk, rfl, hchunk⟩ := local_readElement _ _ _ hread
    exact ⟨chunk, rfl, fun _ rest' hsame ↦ hsame ▸ .rejected hc hw (hchunk rest')⟩

namespace MessageMarshaller

theorem readRecord_of_readsRecordAs (ht : Tag.decode input = .ok (tag, afterTag))
    (hplan : m.plan? tag.number = some (index, p))
    (h : p.ReadsRecordAs reg nested index tag input afterTag rest e) :
    (m.readRecord reg nested input).result = .ok (e, rest) := by
  have hexpect : ∀ w, tag.wireType = w → tag.expect w = .ok () := fun w hw ↦ if_pos hw
  -- What has the wire type of its element is no packed run.
  have hnorun : tag.wireType = p.element.wireType →
      ¬(tag.wireType = .lengthDelimited ∧ p.element.wireType ≠ .lengthDelimited) :=
    fun hw h ↦ h.2 (hw ▸ h.1)
  rw [m.readRecord_known ht hplan]
  cases h with
  | entry hc hw hframe hentry =>
    simp only [hc, readMapRecord, Logged.result_bind, result_ofWire, hexpect _ hw, mapError_ok,
      ok_bind, hframe, hentry, Logged.result_pure]
  | spoiledEntry hc hw hframe hentry =>
    simp only [hc, readMapRecord, Logged.result_bind, result_ofWire, hexpect _ hw, mapError_ok,
      ok_bind, hframe, hentry, Logged.result_note, Logged.result_pure]
  | packed hc hw hrun hframe hreadings =>
    simp only [hc, readListRecord, if_pos (And.intro hw hrun), Logged.result_bind, result_ofWire,
      mapError_ok, ok_bind, hframe, hreadings, Logged.result_pure]
  | element hc hw hread =>
    simp only [hc, readListRecord, if_neg (hnorun hw), Logged.result_bind, result_ofWire,
      hexpect _ hw, mapError_ok, ok_bind, hread, Logged.result_pure]
  | @single v hc hw hread =>
    have hsingle : (m.readSingleRecord reg nested index p tag input afterTag).result = .ok
        ({ change := some (index, .set v) }, rest) := by
      simp only [readSingleRecord, Logged.result_bind, result_ofWire, hexpect _ hw, mapError_ok,
        ok_bind, hread, Logged.result_pure]
    rcases hc with hc | hc <;> rw [hc] <;> exact hsingle
  | rejected hc hw hread =>
    cases hcard : p.field.cardinality with
    | map => exact absurd hcard hc
    | repeated =>
      simp only [readListRecord, if_neg (hnorun hw), Logged.result_bind, result_ofWire,
        hexpect _ hw,
        mapError_ok, ok_bind, hread, Logged.result_pure]
    | required | optional =>
      simp only [readSingleRecord, Logged.result_bind, result_ofWire, hexpect _ hw, mapError_ok,
        ok_bind, hread, Logged.result_note, Logged.result_pure]

/-- **Records are read alike wherever they stand.** -/
theorem local_readRecord : Local fun input ↦ (m.readRecord reg nested input).result := by
  intro input e rest h
  obtain ⟨tag, afterTag, ht, hcases⟩ := readRecord_eq_ok h
  -- The record is its tag and what was read behind it.
  obtain ⟨front, rfl, hfront⟩ := Tag.local_decode _ _ _ ht
  rcases hcases with ⟨hplan, rfl, payload, hpayload⟩ | ⟨index, p, hplan, hread⟩
  · obtain ⟨chunk, rfl, hchunk⟩ := Payload.local_decode _ _ _ _ hpayload
    rw [← List.append_assoc, consumed_append]
    refine ⟨front ++ chunk, rfl, fun rest' ↦ ?_⟩
    have hrecord : Record.decode (front ++ chunk ++ rest') =
        .ok (⟨tag.number, payload⟩, rest') := by
      rw [List.append_assoc]
      exact Record.decode_eq_ok.2 ⟨tag, chunk ++ rest', hfront _, rfl, hchunk rest'⟩
    have hunknown : (m.readRecord reg nested (front ++ chunk ++ rest')).result = _ :=
      m.readRecord_unknown hrecord hplan
    rwa [consumed_append] at hunknown
  · obtain ⟨chunk, rfl, hchunk⟩ := hread.relocate
    rw [← List.append_assoc] at hchunk ⊢
    refine ⟨front ++ chunk, rfl, fun rest' ↦ ?_⟩
    have hread' := hchunk (front ++ chunk ++ rest') rest' (by rw [consumed_append, consumed_append])
    refine readRecord_of_readsRecordAs ?_ hplan hread'
    rw [List.append_assoc]
    exact hfront _

end MessageMarshaller

end

end ProtoSchema
