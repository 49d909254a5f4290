import Mathlib.Data.List.Infix
import ProtoSchema.Proofs.Codec.Reordering
import ProtoSchema.Proofs.Codec.RoundTrip
import ProtoSchema.Proofs.Wire.Truncation

/-!
# Truncated messages

An input that is decoded may not be cut short unnoticed, unless the cut is where one record ends and
the next one starts. Records in front of the cut are read as before. The record that is cut fails
when it is read from the wire, and no reader of a field looks at anything before that: it expects
the wire type that the tag has, and then reads the payload. So the error is always that bytes are
missing, never that what is left of a varint, a string or a nested message is malformed.
-/

set_option autoImplicit false

namespace ProtoSchema

open Wire

/-! ## Payloads are read first

A reader compares the wire type of the tag with that of its field before anything else. The whole
record was read, so the comparison succeeds for the cut one as well, and what is read next is the
payload. -/

theorem Scalar.read_of_payload_error {s : Scalar} {number : Nat} {input : Bytes} {e : WireError}
    (h : Payload.decode s.wireType input = .error e) : s.read number input = .error e := by
  cases s with
  | string => rw [read, readAs_eq_error.1 h, error_bind]
  | int32 | int64 | uint32 | uint64 | sint32 | sint64 | bool | sfixed32 | fixed32 | float
  | sfixed64 | fixed64 | double | bytes =>
    rw [read, readAs_eq_error]
    exact readAs_eq_error.1 h

section

variable {reg : Registry} {nested : NestedReader} {p : Plan} {m : MessageMarshaller} {e : WireError}

theorem readElement_of_payload_error {input : Bytes}
    (h : Payload.decode p.element.wireType input = .error e) :
    (readElement reg nested p input).result = .error (.wire e) := by
  cases he : p.element with
  | scalar s =>
    rw [he] at h
    simp only [readElement, he, Logged.result_bind, result_ofWire, Scalar.read_of_payload_error h,
      mapError_error, error_bind]
  | enum target isOpen =>
    rw [he] at h
    simp only [readElement, he, Logged.result_bind, result_ofWire, readAs_eq_error.1 h,
      mapError_error, error_bind]
  | message target =>
    rw [he] at h
    simp only [readElement, he, Logged.result_bind, result_ofWire, readAs_eq_error.1 h,
      mapError_error, error_bind]

namespace Plan.ReadsRecordAs

variable {tag : Tag} {index : Nat} {input afterTag rest : Bytes} {effect : Effect}

theorem wireType_of_map (h : p.ReadsRecordAs reg nested index tag input afterTag rest effect)
    (hc : p.field.cardinality = .map) : tag.wireType = .lengthDelimited := by
  cases h with
  | entry _ hw | spoiledEntry _ hw => exact hw
  | packed hc' | element hc' => rw [hc] at hc'; cases hc'
  | single hc' => rw [hc] at hc'; rcases hc' with hc' | hc' <;> cases hc'
  | rejected hc' => exact absurd hc hc'

theorem wireType_of_element (h : p.ReadsRecordAs reg nested index tag input afterTag rest effect)
    (hc : p.field.cardinality ≠ .map)
    (hrun : p.field.cardinality = .repeated →
      ¬(tag.wireType = .lengthDelimited ∧ p.element.wireType ≠ .lengthDelimited)) :
    tag.wireType = p.element.wireType := by
  cases h with
  | element _ hw | single _ hw | rejected _ hw => exact hw
  | packed hc' hw hne => exact absurd ⟨hw, hne⟩ (hrun hc')
  | entry hc' | spoiledEntry hc' => exact absurd hc' hc

end Plan.ReadsRecordAs

namespace MessageMarshaller

theorem readRecord_of_payload_error {tag : Tag} {index : Nat}
    {input afterTag rest cut afterCut : Bytes} {effect : Effect}
    (hwhole : p.ReadsRecordAs reg nested index tag input afterTag rest effect)
    (ht : Tag.decode cut = .ok (tag, afterCut)) (hplan : m.plan? tag.number = some (index, p))
    (h : Payload.decode tag.wireType afterCut = .error e) :
    (m.readRecord reg nested cut).result = .error (.wire e) := by
  have hexpect : ∀ w, tag.wireType = w → tag.expect w = .ok () := fun w hw ↦ if_pos hw
  have hframe : tag.wireType = .lengthDelimited → readLengthDelimited afterCut = .error e := by
    intro hw
    rw [hw] at h
    exact readAs_eq_error.1 h
  have helement : tag.wireType = p.element.wireType →
      (readElement reg nested p afterCut).result = .error (.wire e) := by
    intro hw
    rw [hw] at h
    exact readElement_of_payload_error h
  rw [m.readRecord_known ht hplan]
  cases hc : p.field.cardinality with
  | map =>
    have hw := hwhole.wireType_of_map hc
    simp only [readMapRecord, Logged.result_bind, result_ofWire, hexpect _ hw, mapError_ok, ok_bind,
      hframe hw, mapError_error, error_bind]
  | repeated =>
    by_cases hrun : tag.wireType = .lengthDelimited ∧ p.element.wireType ≠ .lengthDelimited
    · simp only [readListRecord, if_pos hrun, Logged.result_bind, result_ofWire, hframe hrun.1,
        mapError_error, error_bind]
    · have hw := hwhole.wireType_of_element (by rw [hc]; decide) fun _ ↦ hrun
      simp only [readListRecord, if_neg hrun, Logged.result_bind, result_ofWire, hexpect _ hw,
        mapError_ok, ok_bind, helement hw, error_bind]
  | required | optional =>
    have hw := hwhole.wireType_of_element (by rw [hc]; decide)
      fun hc' ↦ by rw [hc] at hc'; cases hc'
    simp only [readSingleRecord, Logged.result_bind, result_ofWire, hexpect _ hw, mapError_ok,
      ok_bind, helement hw, error_bind]

/-- **A record that is cut short is noticed.** -/
theorem readRecord_of_cut {cut more : Bytes} {effect : Effect}
    (h : (m.readRecord reg nested (cut ++ more)).result = .ok (effect, [])) (hmore : more ≠ []) :
    ∃ needed, 1 ≤ needed ∧ needed ≤ more.length ∧
      (m.readRecord reg nested cut).result = .error (.wire (.truncated needed)) := by
  obtain ⟨tag, afterTag, ht, hcases⟩ := readRecord_eq_ok h
  obtain ⟨r, hrecord, -⟩ := kept_of_readRecord h
  obtain ⟨needed, hpos, hle, hcut⟩ := Record.noticesCuts_decode.notices cut more r [] hrecord
    (List.length_pos_of_ne_nil hmore)
  refine ⟨needed, hpos, by simpa using hle, ?_⟩
  rcases bind_eq_error.1 hcut with hcut | ⟨⟨tag', afterCut⟩, ht', hcut⟩
  · -- The cut is in the tag.
    simp only [readRecord, Logged.result_bind, result_ofWire, hcut, mapError_error, error_bind]
  · obtain ⟨front, rfl, hfront⟩ := Tag.local_decode _ _ _ ht'
    have htag := ht.symm.trans (List.append_assoc front afterCut more ▸ hfront (afterCut ++ more))
    obtain ⟨rfl, rfl⟩ := Prod.mk.inj (Except.ok.inj htag)
    have hpayload : Payload.decode tag.wireType afterCut = .error (.truncated needed) := by
      rcases bind_eq_error.1 hcut with hcut | ⟨_, -, hcut⟩
      · exact hcut
      · cases hcut
    rcases hcases with ⟨hplan, -, -⟩ | ⟨index, p, hplan, hwhole⟩
    · simp only [readRecord, Logged.result_bind, result_ofWire, ht', mapError_ok, ok_bind, hplan,
        hpayload, mapError_error, error_bind]
    · exact readRecord_of_payload_error hwhole ht' hplan hpayload

end MessageMarshaller

end

/-! ## Cut messages

What is left of an input ends where a record ends or inside of one. The records in front of the cut
are read as before. -/

/-- The input is cut short inside of a record: what is left of it is none of the beginnings that
consist of whole records. -/
structure CutsRecord (cut input : Bytes) : Prop where
  isPrefix : cut <+: input
  inside : ∀ pieces, pieces <+: split Record.decode input → pieces.flatMap (·.1) ≠ cut

theorem exists_piece_of_prefix {α : Type} {pieces : List (Bytes × α)} {cut : Bytes}
    (h : cut <+: pieces.flatMap (·.1)) :
    (∃ front, front <+: pieces ∧ front.flatMap (·.1) = cut) ∨
      ∃ front piece back left more, pieces = front ++ piece :: back ∧ piece.1 = left ++ more ∧
        left ≠ [] ∧ more ≠ [] ∧ cut = front.flatMap (·.1) ++ left := by
  induction pieces generalizing cut with
  | nil => exact .inl ⟨[], List.nil_prefix, (List.prefix_nil.1 h).symm⟩
  | cons piece back ih =>
    obtain ⟨t, ht⟩ := h
    rw [List.flatMap_cons] at ht
    rcases List.append_eq_append_iff.1 ht with ⟨more, hpiece, -⟩ | ⟨later, rfl, hback⟩
    · by_cases hleft : cut = []
      · exact .inl ⟨[], List.nil_prefix, hleft.symm⟩
      · by_cases hmore : more = []
        · rw [hmore, List.append_nil] at hpiece
          exact .inl ⟨[piece], ⟨back, rfl⟩, by simpa using hpiece⟩
        · exact .inr ⟨[], piece, back, cut, more, rfl, hpiece, hleft, hmore, rfl⟩
    · rcases ih ⟨t, hback.symm⟩ with ⟨front, hfront, rfl⟩ |
        ⟨front, piece', back', left, more, rfl, hpiece, hleft, hmore, rfl⟩
      · refine .inl ⟨piece :: front, ?_, List.flatMap_cons⟩
        exact (List.prefix_cons_inj piece).2 hfront
      · refine .inr ⟨piece :: front, piece', back', left, more, rfl, hpiece, hleft, hmore, ?_⟩
        rw [List.flatMap_cons, List.append_assoc]

namespace MessageMarshaller

variable {m : MessageMarshaller} {reg : Registry} {nested : NestedReader} {input : Bytes}
  {i : Instance}

theorem decodeWith_of_cutsRecord (h : (m.decodeWith reg nested input).result = .ok i) {cut : Bytes}
    (hcut : CutsRecord cut input) :
    ∃ needed, 1 ≤ needed ∧ needed ≤ input.length - cut.length ∧
      (m.decodeWith reg nested cut).result = .error (.wire (.truncated needed)) := by
  obtain ⟨records, hand, hdecodes⟩ := decodeWith_eq_ok.1 h
  have hinput := (keptOf_of_readTrace hdecodes.reads).1
  have hreads := reads_of_readTrace hdecodes.reads
  have hprefix := hcut.isPrefix
  rw [← hinput] at hprefix
  rcases exists_piece_of_prefix hprefix with ⟨front, hfront, hwhole⟩ |
    ⟨front, piece, back, left, more, hsplit, hpiece, hleft, hmore, rfl⟩
  · exact absurd hwhole (hcut.inside front hfront)
  · rw [hsplit, List.forall_mem_append, List.forall_mem_cons] at hreads
    have hrecord := hreads.2.1.readRecord
    rw [hpiece] at hrecord
    obtain ⟨needed, hpos, hle, herror⟩ := readRecord_of_cut hrecord hmore
    refine ⟨needed, hpos, ?_, ?_⟩
    · have hlength := congrArg List.length hinput
      simp only [hsplit, List.flatMap_append, List.flatMap_cons, hpiece, List.length_append]
        at hlength ⊢
      omega
    · have hall : (readAll (m.readRecord reg nested) (front.flatMap (·.1) ++ left)).result =
          .error (.wire (.truncated needed)) := by
        rw [readsAll_of_reads hreads.1 left, readAll_of_error hleft herror]
        rfl
      rw [Draft.result_decodeWith, hall, error_bind]

end MessageMarshaller

/-- **Truncation is noticed.** An input that is decoded consists of records. If it is cut short
inside of one, be it in the tag, in a number, in a length or in what a length stands for, decoding
fails for missing bytes, and asks for no more of them than were cut off. -/
theorem truncated_of_decodeAt {m : MessageMarshaller} {reg : Registry} {levels : Nat}
    {input : Bytes} {i : Instance} (h : (reg.decodeAt levels m input).result = .ok i) :
    (split Record.decode input).flatMap (·.1) = input ∧
      ∀ cut, CutsRecord cut input → ∃ needed, 1 ≤ needed ∧ needed ≤ input.length - cut.length ∧
        (reg.decodeAt levels m cut).result = .error (.wire (.truncated needed)) ∧
        ∀ t, reg.messageMarshaller? t = some m → levels = nestingLimit →
          (reg.decode t cut).result = .error (.wire (.truncated needed)) := by
  rw [Registry.decodeAt_eq] at h
  obtain ⟨records, hand, hdecodes⟩ := MessageMarshaller.decodeWith_eq_ok.1 h
  refine ⟨(keptOf_of_readTrace hdecodes.reads).1, fun cut hcut ↦ ?_⟩
  obtain ⟨needed, hpos, hle, herror⟩ := MessageMarshaller.decodeWith_of_cutsRecord h hcut
  rw [← Registry.decodeAt_eq] at herror
  refine ⟨needed, hpos, hle, herror, fun t hm hlevels ↦ ?_⟩
  subst hlevels
  exact Registry.decode_eq_error hm herror

/-- A cut inside of a packed run, whose length says that more is to come. -/
theorem Meter.truncated_of_decodeAt_run : ∃ m i, registry.messageMarshaller? log = some m ∧
    (registry.decodeAt nestingLimit m input).result = .ok i ∧ CutsRecord (input.take 13) input ∧
    ∃ needed, 1 ≤ needed ∧ needed ≤ 12 ∧
      (registry.decode log (input.take 13)).result = .error (.wire (.truncated needed)) := by
  obtain ⟨m, hm, -⟩ := exists_log
  have hall : (registry.messageMarshaller? log).map (fun m ↦
      (registry.decodeAt nestingLimit m input).result.toOption.isSome) = some true := by
    decide +kernel
  rw [hm, Option.map_some, Option.some.injEq] at hall
  obtain ⟨i, hi⟩ := Option.isSome_iff_exists.1 hall
  have hi := toOption_eq_some.1 hi
  have hinside : ∀ pieces ∈ (split Record.decode input).inits,
      pieces.flatMap (·.1) ≠ input.take 13 := by
    decide +kernel
  have hcut : CutsRecord (input.take 13) input :=
    ⟨List.take_prefix 13 input,
     fun pieces hpieces ↦ hinside pieces ((List.mem_inits _ _).2 hpieces)⟩
  obtain ⟨needed, hpos, hle, -, hdecode⟩ := (truncated_of_decodeAt hi).2 _ hcut
  exact ⟨m, i, hm, hi, hcut, needed, hpos, hle, hdecode log hm rfl⟩

end ProtoSchema
