import ProtoSchema.Proofs.Codec.Element

/-!
# Sent records

A field travels as a list of records, each of which changes the field in one way: a single value is
set, a run of elements is appended, a map entry is inserted. `Sent` is such a record together with
the change that it stands for, and `Sent.Readable` says what a reader does with it. A reader that
declares the number, with a plan that agrees, makes the change; one that does not keeps the record
byte for byte. Readers of two versions of a type differ in nothing else, so everything about a
message that is read by several types is said about its list of sent records.
-/

set_option autoImplicit false

namespace ProtoSchema

open Wire

/-- A record with the plan it was written by and the change it stands for. -/
structure Sent where
  plan : Plan
  bytes : Bytes
  change : Change

/-- Every reader of the record makes its change, or keeps it if it does not know the field. -/
structure Sent.Readable (reg : Registry) (nested : NestedReader) (s : Sent) : Prop where
  ne_nil : s.bytes ≠ []
  known : ∀ (m : MessageMarshaller) (k : Nat) (q : Plan),
    m.plan? s.plan.field.number = some (k, q) → s.plan.Agrees q →
      Yields (fun input ↦ (m.readRecord reg nested input).result) s.bytes
        { change := some (k, s.change) }
  unknown : ∀ m : MessageMarshaller, m.plan? s.plan.field.number = none →
    Yields (fun input ↦ (m.readRecord reg nested input).result) s.bytes { retained := s.bytes }

/-! ## Readable records

To be readable, a record needs a payload of the wire type of its tag and a reader's plan that makes
the change. That it is kept where nobody knows its number needs the payload only. -/

theorem Plan.WellFormed.isValid_tag {p : Plan} (h : p.WellFormed) (w : WireType) :
    (⟨p.field.number, w⟩ : Tag).IsValid := h.number

theorem consumed_append (chunk rest : Bytes) : consumed (chunk ++ rest) rest = chunk := by
  rw [consumed, List.length_append, Nat.add_sub_cancel, List.take_left]

namespace MessageMarshaller

variable {reg : Registry} {nested : NestedReader}

theorem readRecord_unknown (m : MessageMarshaller) {input rest : Bytes} {r : Record}
    (h : Record.decode input = .ok (r, rest)) (hm : m.plan? r.number = none) :
    (m.readRecord reg nested input).result =
      .ok ({ retained := consumed input rest }, rest) := by
  obtain ⟨tag, afterTag, ht, hn, hp⟩ := Record.decode_eq_ok.1 h
  rw [← hn] at hm
  simp only [readRecord, Logged.result_bind, result_ofWire, ht, mapError_ok, ok_bind, hm, hp,
    Logged.result_note, Logged.result_pure]

theorem readRecord_known (m : MessageMarshaller) {tag : Tag} {input afterTag : Bytes} {k : Nat}
    {q : Plan} (ht : Tag.decode input = .ok (tag, afterTag))
    (hm : m.plan? tag.number = some (k, q)) :
    (m.readRecord reg nested input).result =
      match q.field.cardinality with
      | .map => (m.readMapRecord reg nested k q tag input afterTag).result
      | .repeated => (readListRecord reg nested k q tag input afterTag).result
      | .required | .optional => (m.readSingleRecord reg nested k q tag input afterTag).result := by
  simp only [readRecord, Logged.result_bind, result_ofWire, ht, mapError_ok, ok_bind, hm]
  cases q.field.cardinality <;> rfl

end MessageMarshaller

namespace Sent

variable {reg : Registry} {nested : NestedReader}

theorem readable_of_payload {p : Plan} (payload : Payload) {c : Change}
    (hp : (⟨p.field.number, payload.wireType⟩ : Tag).IsValid)
    (hl : payload.encode.length < UInt64.size)
    (known : ∀ (m : MessageMarshaller) (k : Nat) (q : Plan),
      m.plan? p.field.number = some (k, q) → p.Agrees q →
        Yields (fun input ↦ (m.readRecord reg nested input).result)
          (Tag.encode ⟨p.field.number, payload.wireType⟩ ++ payload.encode)
          { change := some (k, c) }) :
    Readable reg nested
      ⟨p, Tag.encode ⟨p.field.number, payload.wireType⟩ ++ payload.encode, c⟩ where
  ne_nil := List.append_ne_nil_of_left_ne_nil (Tag.encode_ne_nil _) _
  known := known
  unknown m hm := by
    intro rest
    have hr : Record.decode (Tag.encode ⟨p.field.number, payload.wireType⟩ ++ payload.encode
        ++ rest) = .ok (⟨p.field.number, payload⟩, rest) := by
      rw [List.append_assoc]
      exact Record.decode_eq_ok.2
        ⟨_, _, Tag.yields_encode hp _, rfl, Payload.yields_encode hl rest⟩
    have hu : (m.readRecord reg nested _).result = _ := m.readRecord_unknown hr hm
    rwa [consumed_append] at hu

theorem readable_single {p : Plan} {payload : Payload} {w : Value}
    (hp : p.WellFormed)
    (hc : p.field.cardinality = .required ∨ p.field.cardinality = .optional)
    (hl : payload.encode.length < UInt64.size) (ht : payload.wireType = p.element.wireType)
    (hr : ∀ q : Plan, q.element = p.element →
      Yields (fun input ↦ (readElement reg nested q input).result) payload.encode (.accepted w)) :
    Readable reg nested
      ⟨p, Tag.encode ⟨p.field.number, p.element.wireType⟩ ++ payload.encode, .set w⟩ := by
  rw [← ht]
  refine readable_of_payload payload (hp.isValid_tag _) hl fun m k q hq ha rest ↦ ?_
  have he := hr q ha.element rest
  have hs : (m.readSingleRecord reg nested k q ⟨p.field.number, payload.wireType⟩
      (Tag.encode ⟨p.field.number, payload.wireType⟩ ++ (payload.encode ++ rest))
      (payload.encode ++ rest)).result = .ok ({ change := some (k, .set w) }, rest) := by
    simp only [MessageMarshaller.readSingleRecord, Logged.result_bind, result_ofWire, ha.element,
      Tag.expect, ht, if_pos, mapError_ok, ok_bind, he, Logged.result_pure]
  simp only [List.append_assoc]
  rw [m.readRecord_known (Tag.yields_encode (hp.isValid_tag _) _) hq, ha.cardinality]
  rcases hc with hc | hc <;> rw [hc] <;> exact hs

theorem readable_element {p : Plan} {payload : Payload} {w : Value}
    (hp : p.WellFormed)
    (hc : p.field.cardinality = .repeated)
    (hl : payload.encode.length < UInt64.size) (ht : payload.wireType = p.element.wireType)
    (hr : ∀ q : Plan, q.element = p.element →
      Yields (fun input ↦ (readElement reg nested q input).result) payload.encode (.accepted w)) :
    Readable reg nested
      ⟨p, Tag.encode ⟨p.field.number, p.element.wireType⟩ ++ payload.encode, .append [w]⟩ := by
  rw [← ht]
  refine readable_of_payload payload (hp.isValid_tag _) hl fun m k q hq ha rest ↦ ?_
  have he := hr q ha.element rest
  simp only [List.append_assoc]
  rw [m.readRecord_known (Tag.yields_encode (hp.isValid_tag _) _) hq, ha.cardinality, hc]
  -- The wire type of an element is never that of a packed run unless it is its own.
  have hpacked :
      ¬(payload.wireType = .lengthDelimited ∧ q.element.wireType ≠ .lengthDelimited) := by
    rw [ha.element, ht]
    exact fun h ↦ h.2 h.1
  rw [MessageMarshaller.readListRecord, if_neg hpacked]
  simp only [Logged.result_bind, result_ofWire, ha.element, Tag.expect, ht, if_pos, mapError_ok,
    ok_bind, he, Logged.result_pure]

theorem acceptedValues_map (ws : List Value) : acceptedValues (ws.map .accepted) = ws := by
  rw [acceptedValues, List.filterMap_map]
  exact List.filterMap_some

theorem rejectedRecords_map (number : Nat) (ws : List Value) :
    rejectedRecords number (ws.map .accepted) = [] := by
  rw [rejectedRecords, List.flatMap_map]
  simp

theorem readable_packed {p : Plan} {run : Bytes} {ws : List Value} (hp : p.WellFormed)
    (hc : p.field.cardinality = .repeated) (hw : p.element.wireType ≠ .lengthDelimited)
    (hl : (writeLengthDelimited run).length < UInt64.size)
    (hr : ∀ q : Plan, q.element = p.element →
      ReadsAll (readElement reg nested q) run (ws.map .accepted)) :
    Readable reg nested
      ⟨p, Tag.encode ⟨p.field.number, .lengthDelimited⟩ ++ writeLengthDelimited run,
        .append ws⟩ := by
  have hrun := Nat.lt_of_le_of_lt (length_le_writeLengthDelimited run) hl
  refine readable_of_payload (.bytes run) (hp.isValid_tag _) hl
    fun m k q hq ha rest ↦ ?_
  have he := (hr q ha.element).result
  have hpacked : WireType.lengthDelimited = .lengthDelimited ∧
      q.element.wireType ≠ .lengthDelimited := ⟨rfl, ha.element ▸ hw⟩
  simp only [List.append_assoc, Payload.wireType, Payload.encode]
  rw [m.readRecord_known (Tag.yields_encode (hp.isValid_tag _) _) hq, ha.cardinality, hc]
  dsimp only
  rw [MessageMarshaller.readListRecord, if_pos hpacked]
  simp only [Logged.result_bind, result_ofWire, yields_writeLengthDelimited hrun rest, mapError_ok,
    ok_bind, he, Logged.result_pure, acceptedValues_map, rejectedRecords_map]

/-! ## Map entries

An entry is a message of its own, of which the key and the value are the only pieces that are
written. -/

theorem yields_key {q : Plan} {s : Scalar} {k : Value} {payload : Payload}
    (h : s.toPayload? k = some payload) (hl : payload.encode.length < UInt64.size) :
    Yields (fun input ↦ (readEntryPiece reg nested q s input).result)
      (Tag.encode ⟨1, s.wireType⟩ ++ payload.encode) (.key k) := by
  intro rest
  have ht : (⟨1, s.wireType⟩ : Tag).IsValid := ⟨Nat.le_refl 1, show 1 ≤ maxFieldNumber by decide⟩
  simp only [readEntryPiece, Logged.result_bind, result_ofWire, List.append_assoc,
    Tag.yields_encode ht (payload.encode ++ rest), mapError_ok, ok_bind, if_pos, Tag.expect,
    Scalar.yields_read q.field.number h hl rest, Logged.result_pure]

theorem yields_value {q : Plan} {s : Scalar} {b : Bytes} {w : Value}
    (h : Yields (fun input ↦ (readElement reg nested q input).result) b (.accepted w)) :
    Yields (fun input ↦ (readEntryPiece reg nested q s input).result)
      (Tag.encode ⟨2, q.element.wireType⟩ ++ b) (.value w) := by
  intro rest
  have ht : (⟨2, q.element.wireType⟩ : Tag).IsValid :=
    ⟨show 1 ≤ 2 by decide, show 2 ≤ maxFieldNumber by decide⟩
  have hr := h rest
  simp only [readEntryPiece, Logged.result_bind, result_ofWire, List.append_assoc,
    Tag.yields_encode ht (b ++ rest), mapError_ok, ok_bind, if_neg (show ¬(2 : Nat) = 1 by decide),
    if_pos, Tag.expect, hr, Logged.result_pure]

theorem readEntry_append {q : Plan} {s : Scalar} {k w : Value} {payload : Payload} {b : Bytes}
    (hk : s.toPayload? k = some payload) (hl : payload.encode.length < UInt64.size)
    (h : Yields (fun input ↦ (readElement reg nested q input).result) b (.accepted w)) :
    (readEntry reg nested q s (Tag.encode ⟨1, s.wireType⟩ ++ payload.encode
      ++ (Tag.encode ⟨2, q.element.wireType⟩ ++ b))).result = .ok (some (k, w)) := by
  have hkey : ReadsAll (readEntryPiece reg nested q s) _ [.key k] :=
    .single (List.append_ne_nil_of_left_ne_nil (Tag.encode_ne_nil _) _) (yields_key hk hl)
  have hvalue : ReadsAll (readEntryPiece reg nested q s) _ [.value w] :=
    .single (List.append_ne_nil_of_left_ne_nil (Tag.encode_ne_nil _) _) (yields_value h)
  simp only [readEntry, Logged.result_bind, (hkey.append hvalue).result, ok_bind]
  rfl

theorem readable_entry {p : Plan} {s : Scalar} {k w : Value} {frame : Bytes} (hp : p.WellFormed)
    (hc : p.field.cardinality = .map) (hs : p.field.mapKey = some s)
    (hl : (writeLengthDelimited frame).length < UInt64.size)
    (hr : ∀ q : Plan, q.element = p.element →
      (readEntry reg nested q s frame).result = .ok (some (k, w))) :
    Readable reg nested
      ⟨p, Tag.encode ⟨p.field.number, .lengthDelimited⟩ ++ writeLengthDelimited frame,
        .insert k w⟩ := by
  have hframe := Nat.lt_of_le_of_lt (length_le_writeLengthDelimited frame) hl
  refine readable_of_payload (.bytes frame) (hp.isValid_tag _) hl
    fun m i q hq ha rest ↦ ?_
  simp only [List.append_assoc, Payload.wireType, Payload.encode]
  rw [m.readRecord_known (Tag.yields_encode (hp.isValid_tag _) _) hq, ha.cardinality, hc]
  simp only [MessageMarshaller.readMapRecord, Logged.result_bind, result_ofWire, Tag.expect, if_pos,
    yields_writeLengthDelimited hframe rest, mapError_ok, ok_bind, ha.mapKey, hs, Option.getD_some,
    hr q ha.element, Logged.result_pure]

end Sent

end ProtoSchema
