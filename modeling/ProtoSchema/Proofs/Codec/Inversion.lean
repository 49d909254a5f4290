import ProtoSchema.Codec.Decode
import ProtoSchema.Proofs.Result

/-!
# What the readers come to

Each reader of decoding is taken apart once: where it succeeds, one of a few things happened, and
each is a constructor that says what was read from which bytes, what was checked and what was made
of it. What holds of every reading is then proved by cases.
-/

set_option autoImplicit false

namespace ProtoSchema

open Wire

section

variable (reg : Registry) (nested : NestedReader) (p : Plan)

/-- What reading an element of a field comes to. -/
inductive Element.ReadsAs (input rest : Bytes) : Element → Reading → Prop
  | scalar {s : Scalar} {v : Value} (hread : s.read p.field.number input = .ok (v, rest)) :
      ReadsAs input rest (.scalar s) (.accepted v)
  | openEnum {target : TypeId} {w : UInt64} (hword : Varint.decode input = .ok (w, rest)) :
      ReadsAs input rest (.enum target true) (.accepted (.enum w.toUInt32.toInt32))
  | closedEnum {target : TypeId} {w : UInt64} {e : EnumMarshaller}
      (hword : Varint.decode input = .ok (w, rest)) (he : reg.enumMarshaller? target = some e)
      (hknown : e.isKnown w.toUInt32.toInt32 = true) :
      ReadsAs input rest (.enum target false) (.accepted (.enum w.toUInt32.toInt32))
  | rejected {target : TypeId} {w : UInt64} {e : EnumMarshaller}
      (hword : Varint.decode input = .ok (w, rest)) (he : reg.enumMarshaller? target = some e)
      (hunknown : ¬e.isKnown w.toUInt32.toInt32 = true) :
      ReadsAs input rest (.enum target false) (.rejected w.toUInt32.toInt32)
  | message {target : TypeId} {m : MessageMarshaller} {frame : Bytes} {i : Instance}
      (hframe : readLengthDelimited input = .ok (frame, rest))
      (hm : reg.messageMarshaller? target = some m) (hi : (nested.run m frame).result = .ok i) :
      ReadsAs input rest (.message target) (.accepted (.message i))

/-- What reading a piece of a map entry behind its tag comes to. -/
inductive EntryPiece.ReadsAs (s : Scalar) (tag : Tag) (afterTag : Bytes) :
    EntryPiece → Bytes → Prop
  | key {k : Value} {rest : Bytes} (hnumber : tag.number = 1) (hw : tag.wireType = s.wireType)
      (hread : s.read p.field.number afterTag = .ok (k, rest)) :
      ReadsAs s tag afterTag (.key k) rest
  | value {v : Value} {rest : Bytes} (hnumber : tag.number = 2)
      (hw : tag.wireType = p.element.wireType)
      (hread : (readElement reg nested p afterTag).result = .ok (.accepted v, rest)) :
      ReadsAs s tag afterTag (.value v) rest
  | rejected {n : Int32} {rest : Bytes} (hnumber : tag.number = 2)
      (hw : tag.wireType = p.element.wireType)
      (hread : (readElement reg nested p afterTag).result = .ok (.rejected n, rest)) :
      ReadsAs s tag afterTag .rejected []
  | other {payload : Payload} {rest : Bytes} (hkey : tag.number ≠ 1) (hvalue : tag.number ≠ 2)
      (hpayload : Payload.decode tag.wireType afterTag = .ok (payload, rest)) :
      ReadsAs s tag afterTag .other rest

/-- What reading a record of a field behind its tag comes to. -/
inductive Plan.ReadsRecordAs (index : Nat) (tag : Tag) (input afterTag rest : Bytes) :
    Effect → Prop
  | entry {frame : Bytes} {key v : Value} (hc : p.field.cardinality = .map)
      (hw : tag.wireType = .lengthDelimited)
      (hframe : readLengthDelimited afterTag = .ok (frame, rest))
      (hentry : (readEntry reg nested p (p.field.mapKey.getD .string) frame).result
        = .ok (some (key, v))) :
      ReadsRecordAs index tag input afterTag rest { change := some (index, .insert key v) }
  | spoiledEntry {frame : Bytes} (hc : p.field.cardinality = .map)
      (hw : tag.wireType = .lengthDelimited)
      (hframe : readLengthDelimited afterTag = .ok (frame, rest))
      (hentry : (readEntry reg nested p (p.field.mapKey.getD .string) frame).result = .ok none) :
      ReadsRecordAs index tag input afterTag rest { retained := consumed input rest }
  | packed {frame : Bytes} {readings : List Reading} (hc : p.field.cardinality = .repeated)
      (hw : tag.wireType = .lengthDelimited) (hrun : p.element.wireType ≠ .lengthDelimited)
      (hframe : readLengthDelimited afterTag = .ok (frame, rest))
      (hreadings : (readAll (readElement reg nested p) frame).result = .ok readings) :
      ReadsRecordAs index tag input afterTag rest
        ⟨some (index, .append (acceptedValues readings)), rejectedRecords p.field.number readings⟩
  | element {v : Value} (hc : p.field.cardinality = .repeated)
      (hw : tag.wireType = p.element.wireType)
      (hread : (readElement reg nested p afterTag).result = .ok (.accepted v, rest)) :
      ReadsRecordAs index tag input afterTag rest { change := some (index, .append [v]) }
  | single {v : Value} (hc : p.field.cardinality = .required ∨ p.field.cardinality = .optional)
      (hw : tag.wireType = p.element.wireType)
      (hread : (readElement reg nested p afterTag).result = .ok (.accepted v, rest)) :
      ReadsRecordAs index tag input afterTag rest { change := some (index, .set v) }
  | rejected {n : Int32} (hc : p.field.cardinality ≠ .map)
      (hw : tag.wireType = p.element.wireType)
      (hread : (readElement reg nested p afterTag).result = .ok (.rejected n, rest)) :
      ReadsRecordAs index tag input afterTag rest { retained := consumed input rest }

end

/-! ## Taking readers apart

Every reader is a sequence of steps with a few branches. It is gone through once, from its first
step to its last, and each way through it ends in one of the constructors above. -/

variable {reg : Registry} {nested : NestedReader} {p : Plan} {m : MessageMarshaller} {tag : Tag}
  {input afterTag rest : Bytes}

theorem expect_eq_ok {t : Tag} {w : WireType} {u : Unit} :
    (ofWire (t.expect w)).result = .ok u ↔ t.wireType = w := by
  change (t.expect w).mapError DecodeError.wire = _ ↔ _
  rw [mapError_eq_ok, Tag.expect, ite_ok_eq_ok]
  exact and_iff_left rfl

theorem Registry.judgeNumber_eq_ok {target : TypeId} {isOpen : Bool} {n : Int32} {r : Reading}
    (h : reg.judgeNumber p target isOpen n = .ok r) :
    isOpen = true ∧ r = .accepted (.enum n) ∨ isOpen = false ∧
      ∃ e, reg.enumMarshaller? target = some e ∧
        (e.isKnown n = true ∧ r = .accepted (.enum n) ∨
          ¬e.isKnown n = true ∧ r = .rejected n) := by
  unfold judgeNumber at h
  cases isOpen with
  | true =>
    cases h
    exact .inl ⟨rfl, rfl⟩
  | false =>
    rw [if_neg Bool.false_ne_true] at h
    split at h
    · cases h
    · next e he =>
      refine .inr ⟨rfl, e, he, ?_⟩
      split at h
      · next hknown =>
        cases h
        exact .inl ⟨hknown, rfl⟩
      · next hunknown =>
        cases h
        exact .inr ⟨hunknown, rfl⟩

theorem Registry.elementMarshaller_eq_ok {target : TypeId}
    (h : reg.elementMarshaller p target = .ok m) : reg.messageMarshaller? target = some m := by
  unfold elementMarshaller at h
  split at h
  · next m' hm =>
    cases h
    exact hm
  · cases h

theorem readElement_eq_ok {reading : Reading}
    (h : (readElement reg nested p input).result = .ok (reading, rest)) :
    p.element.ReadsAs reg nested p input rest reading := by
  unfold readElement at h
  cases he : p.element with
  | scalar s =>
    rw [he] at h
    obtain ⟨⟨v, left⟩, hread, h⟩ := Logged.bind_eq_ok.1 h
    cases h
    exact .scalar (mapError_eq_ok.1 hread)
  | enum target isOpen =>
    rw [he] at h
    obtain ⟨⟨w, left⟩, hw, h⟩ := Logged.bind_eq_ok.1 h
    obtain ⟨judged, hjudged, h⟩ := Logged.bind_eq_ok.1 h
    cases h
    have hw := mapError_eq_ok.1 hw
    obtain ⟨rfl, rfl⟩ | ⟨rfl, e, he, ⟨hknown, rfl⟩ | ⟨hunknown, rfl⟩⟩ :=
      Registry.judgeNumber_eq_ok hjudged
    · exact .openEnum hw
    · exact .closedEnum hw he hknown
    · exact .rejected hw he hunknown
  | message target =>
    rw [he] at h
    obtain ⟨⟨frame, left⟩, hframe, h⟩ := Logged.bind_eq_ok.1 h
    dsimp only at h
    split at h
    · cases h
    · obtain ⟨m, hm, h⟩ := Logged.bind_eq_ok.1 h
      obtain ⟨i, hi, h⟩ := Logged.bind_eq_ok.1 h
      cases h
      exact .message (mapError_eq_ok.1 hframe) (Registry.elementMarshaller_eq_ok hm) hi

theorem readEntryPiece_eq_ok {s : Scalar} {piece : EntryPiece}
    (h : (readEntryPiece reg nested p s input).result = .ok (piece, rest)) :
    ∃ tag afterTag, Tag.decode input = .ok (tag, afterTag) ∧
      piece.ReadsAs reg nested p s tag afterTag rest := by
  unfold readEntryPiece at h
  obtain ⟨⟨tag, afterTag⟩, ht, h⟩ := Logged.bind_eq_ok.1 h
  refine ⟨tag, afterTag, mapError_eq_ok.1 ht, ?_⟩
  dsimp only at h
  split at h
  · next hkey =>
    obtain ⟨_, hexpect, h⟩ := Logged.bind_eq_ok.1 h
    obtain ⟨⟨k, left⟩, hk, h⟩ := Logged.bind_eq_ok.1 h
    cases h
    exact .key hkey (expect_eq_ok.1 hexpect) (mapError_eq_ok.1 hk)
  · next hkey =>
    split at h
    · next hvalue =>
      obtain ⟨_, hexpect, h⟩ := Logged.bind_eq_ok.1 h
      obtain ⟨⟨reading, left⟩, hread, h⟩ := Logged.bind_eq_ok.1 h
      have hw := expect_eq_ok.1 hexpect
      cases reading with
      | accepted v =>
        cases h
        exact .value hvalue hw hread
      | rejected n =>
        cases h
        exact .rejected hvalue hw hread
    · next hvalue =>
      obtain ⟨⟨payload, left⟩, hpayload, h⟩ := Logged.bind_eq_ok.1 h
      cases h
      exact .other hkey hvalue (mapError_eq_ok.1 hpayload)

/-- An entry is spoiled by a rejected piece; else it holds the last value that stands in it, or the
zero of its type, and so does its key. -/
theorem readEntry_eq_ok {s : Scalar} {frame : Bytes} {entry : Option (Value × Value)}
    (h : (readEntry reg nested p s frame).result = .ok entry) :
    ∃ pieces, (readAll (readEntryPiece reg nested p s) frame).result = .ok pieces ∧
      entry.isNone = pieces.any EntryPiece.isRejected ∧ ∀ key v, entry = some (key, v) →
        key = (lastKey? pieces).getD s.zero ∧ (lastValue? pieces = some v ∨
          lastValue? pieces = none ∧ (zeroElement reg nested p).result = .ok v) := by
  obtain ⟨pieces, hpieces, h⟩ := Logged.bind_eq_ok.1 h
  refine ⟨pieces, hpieces, ?_⟩
  dsimp only at h
  split at h
  · next hrejected =>
    cases h
    exact ⟨hrejected.symm, fun key v h ↦ by cases h⟩
  · next hrejected =>
    rw [Bool.not_eq_true] at hrejected
    rw [hrejected]
    split at h
    · next value hvalue =>
      cases h
      refine ⟨rfl, ?_⟩
      rintro key v ⟨⟩
      exact ⟨rfl, .inl hvalue⟩
    · next hnone =>
      obtain ⟨zero, hzero, h⟩ := Logged.bind_eq_ok.1 h
      cases h
      refine ⟨rfl, ?_⟩
      rintro key v ⟨⟩
      exact ⟨rfl, .inr ⟨hnone, hzero⟩⟩

namespace MessageMarshaller

variable {index : Nat} {e : Effect}

theorem readMapRecord_eq_ok (hc : p.field.cardinality = .map)
    (h : (m.readMapRecord reg nested index p tag input afterTag).result = .ok (e, rest)) :
    p.ReadsRecordAs reg nested index tag input afterTag rest e := by
  obtain ⟨_, hexpect, h⟩ := Logged.bind_eq_ok.1 h
  obtain ⟨⟨frame, left⟩, hframe, h⟩ := Logged.bind_eq_ok.1 h
  obtain ⟨entry, hentry, h⟩ := Logged.bind_eq_ok.1 h
  have hw := expect_eq_ok.1 hexpect
  have hframe := mapError_eq_ok.1 hframe
  cases entry with
  | none =>
    obtain ⟨_, -, h⟩ := Logged.bind_eq_ok.1 h
    cases h
    exact .spoiledEntry hc hw hframe hentry
  | some entry =>
    cases h
    exact .entry hc hw hframe hentry

theorem readListRecord_eq_ok (hc : p.field.cardinality = .repeated)
    (h : (readListRecord reg nested index p tag input afterTag).result = .ok (e, rest)) :
    p.ReadsRecordAs reg nested index tag input afterTag rest e := by
  unfold readListRecord at h
  split at h
  · next hpacked =>
    obtain ⟨⟨frame, left⟩, hframe, h⟩ := Logged.bind_eq_ok.1 h
    obtain ⟨readings, hreadings, h⟩ := Logged.bind_eq_ok.1 h
    cases h
    exact .packed hc hpacked.1 hpacked.2 (mapError_eq_ok.1 hframe) hreadings
  · obtain ⟨_, hexpect, h⟩ := Logged.bind_eq_ok.1 h
    obtain ⟨⟨reading, left⟩, hread, h⟩ := Logged.bind_eq_ok.1 h
    have hw := expect_eq_ok.1 hexpect
    cases reading with
    | accepted v =>
      cases h
      exact .element hc hw hread
    | rejected n =>
      cases h
      exact .rejected (by rw [hc]; decide) hw hread

theorem readSingleRecord_eq_ok
    (hc : p.field.cardinality = .required ∨ p.field.cardinality = .optional)
    (h : (m.readSingleRecord reg nested index p tag input afterTag).result = .ok (e, rest)) :
    p.ReadsRecordAs reg nested index tag input afterTag rest e := by
  obtain ⟨_, hexpect, h⟩ := Logged.bind_eq_ok.1 h
  obtain ⟨⟨reading, left⟩, hread, h⟩ := Logged.bind_eq_ok.1 h
  have hw := expect_eq_ok.1 hexpect
  cases reading with
  | accepted v =>
    cases h
    exact .single hc hw hread
  | rejected n =>
    obtain ⟨_, -, h⟩ := Logged.bind_eq_ok.1 h
    cases h
    exact .rejected (by rcases hc with hc | hc <;> rw [hc] <;> decide) hw hread

/-- **What reading a record comes to.** A record of an undeclared number is retained, and one of a
declared number is read as its field has it. -/
theorem readRecord_eq_ok (h : (m.readRecord reg nested input).result = .ok (e, rest)) :
    ∃ tag afterTag, Tag.decode input = .ok (tag, afterTag) ∧
      ((m.plan? tag.number = none ∧ e = { retained := consumed input rest } ∧
          ∃ payload, Payload.decode tag.wireType afterTag = .ok (payload, rest)) ∨
        ∃ index p, m.plan? tag.number = some (index, p) ∧
          p.ReadsRecordAs reg nested index tag input afterTag rest e) := by
  unfold readRecord at h
  obtain ⟨⟨tag, afterTag⟩, ht, h⟩ := Logged.bind_eq_ok.1 h
  refine ⟨tag, afterTag, mapError_eq_ok.1 ht, ?_⟩
  dsimp only at h
  split at h
  · next hplan =>
    obtain ⟨⟨payload, left⟩, hpayload, h⟩ := Logged.bind_eq_ok.1 h
    obtain ⟨_, -, h⟩ := Logged.bind_eq_ok.1 h
    cases h
    exact .inl ⟨hplan, rfl, payload, mapError_eq_ok.1 hpayload⟩
  · next index p hplan =>
    refine .inr ⟨index, p, hplan, ?_⟩
    split at h
    · next hc => exact readMapRecord_eq_ok hc h
    · next hc => exact readListRecord_eq_ok hc h
    · next hc => exact readSingleRecord_eq_ok (.inl hc) h
    · next hc => exact readSingleRecord_eq_ok (.inr hc) h

end MessageMarshaller

end ProtoSchema
