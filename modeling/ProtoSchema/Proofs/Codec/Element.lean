import ProtoSchema.Proofs.Codec.Fit
import ProtoSchema.Proofs.Codec.Reading

/-!
# Reading back elements

An element that fits is written, its bytes are the bytes of a payload of the element's wire type,
and any plan with the same element reads it back. Nested instances go through a writer and a reader
that are parameters here; `Trips` says what is asked of them.
-/

set_option autoImplicit false

namespace ProtoSchema

open Wire

@[simp] theorem result_ofWire {α : Type} (r : Except WireError α) :
    (ofWire r).result = r.mapError .wire := rfl

/-- A writer of nested instances. -/
abbrev NestedWriter := MessageMarshaller → Instance → Except EncodeError Bytes

/-- The writer writes an instance, and the reader makes of its bytes an instance that is related
to it. -/
def Trips (reg : Registry) (write : NestedWriter) (nested : NestedReader)
    (R : Instance → Instance → Prop) (target : TypeId) (i : Instance) : Prop :=
  ∀ inner, reg.messageMarshaller? target = some inner →
    ∃ b, write inner i = .ok b ∧
      (b.length < UInt64.size →
        ∃ read, nested = some read ∧ ∃ j, (read inner b).result = .ok j ∧ R i j)

/-! ## The three kinds of elements

A scalar comes back by the laws of scalars, a number of an enum as the varint that it is, and an
instance by what is asked of the writer and the reader of the level below. -/

variable {reg : Registry} {write : NestedWriter} {nested : NestedReader}
  {R : Instance → Instance → Prop}

theorem yields_readElement_scalar {q : Plan} {s : Scalar} {v : Value} {p : Payload}
    (hq : q.element = .scalar s) (h : s.toPayload? v = some p)
    (hl : p.encode.length < UInt64.size) :
    Yields (fun input ↦ (readElement reg nested q input).result) p.encode (.accepted v) := by
  intro rest
  have hr := Scalar.yields_read q.field.number h hl rest
  simp only [readElement, hq, Logged.result_bind, result_ofWire, hr, mapError_ok, ok_bind,
    Logged.result_pure]

theorem judgeNumber_eq_accepted {q : Plan} {target : TypeId} {isOpen : Bool} {n : Int32}
    (hres : (Element.enum target isOpen).Resolved reg)
    (hn : isOpen = false → ∀ e, reg.enumMarshaller? target = some e → e.isKnown n = true) :
    reg.judgeNumber q target isOpen n = .ok (.accepted (.enum n)) := by
  obtain ⟨e, he⟩ := hres
  cases isOpen with
  | true => rw [Registry.judgeNumber, if_pos rfl]
  | false =>
    simp only [Registry.judgeNumber, if_neg Bool.false_ne_true, he, if_pos (hn rfl e he)]

theorem yields_readElement_enum {q : Plan} {target : TypeId} {isOpen : Bool} {n : Int32}
    (hq : q.element = .enum target isOpen) (hres : q.element.Resolved reg)
    (hn : isOpen = false → ∀ e, reg.enumMarshaller? target = some e → e.isKnown n = true) :
    Yields (fun input ↦ (readElement reg nested q input).result)
      (Varint.encode n.toInt64.toUInt64) (.accepted (.enum n)) := by
  intro rest
  rw [hq] at hres
  simp only [readElement, hq, Logged.result_bind, result_ofWire, Varint.yields_encode _ rest,
    mapError_ok, ok_bind, toInt32_toInt64, judgeNumber_eq_accepted hres hn,
    Logged.result_ofExcept, Logged.result_pure]

theorem yields_readElement_message {q : Plan} {target : TypeId} {inner : MessageMarshaller}
    {read : MessageMarshaller → Bytes → Logged DecodeError Instance} {b : Bytes} {j : Instance}
    (hq : q.element = .message target) (hm : reg.messageMarshaller? target = some inner)
    (hj : (read inner b).result = .ok j) (hl : b.length < UInt64.size) :
    Yields (fun input ↦ (readElement reg (some read) q input).result) (writeLengthDelimited b)
      (.accepted (.message j)) := by
  intro rest
  have he : reg.elementMarshaller q target = .ok inner := by
    rw [Registry.elementMarshaller, hm]
  simp only [readElement, hq, Logged.result_bind, result_ofWire,
    yields_writeLengthDelimited hl rest, mapError_ok, ok_bind, Option.isNone_some,
    if_neg Bool.false_ne_true, Logged.result_pure, Logged.result_ofExcept, he, NestedReader.run, hj]

/-- **Elements come back.** An element that fits is written as a payload of its wire type, which
every plan with that element reads as the same element up to nested instances. -/
theorem exists_writeElement (m : MessageMarshaller) {p : Plan} {v : Value}
    (hres : p.element.Resolved reg) (hfit : p.element.Fits reg (Trips reg write nested R) v) :
    ∃ b, m.writeElement reg write p v = .ok b ∧
      (b.length < UInt64.size →
        (∃ payload : Payload, payload.wireType = p.element.wireType ∧ payload.encode = b) ∧
        ∃ w, Value.SameElement R v w ∧ ∀ q : Plan, q.element = p.element →
          Yields (fun input ↦ (readElement reg nested q input).result) b (.accepted w)) := by
  cases he : p.element with
  | scalar s =>
    rw [he] at hfit
    obtain ⟨payload, hp⟩ := hfit
    have hw : m.writeElement reg write p v = .ok payload.encode := by
      simp only [MessageMarshaller.writeElement, he, MessageMarshaller.writeScalar, hp]
    have hplain : v.isPlain = true := by
      cases s <;> cases v <;> first | rfl | cases hp
    refine ⟨payload.encode, hw, fun hl ↦
      ⟨⟨payload, Scalar.wireType_of_toPayload? hp, rfl⟩, v, .plain hplain, fun q hq ↦ ?_⟩⟩
    exact yields_readElement_scalar hq hp hl
  | enum target isOpen =>
    rw [he] at hfit
    cases v with
    | enum n =>
      have hw : m.writeElement reg write p (.enum n) = .ok (Varint.encode n.toInt64.toUInt64) := by
        simp only [MessageMarshaller.writeElement, he]
      refine ⟨_, hw, fun _ ↦ ⟨⟨.varint n.toInt64.toUInt64, rfl, rfl⟩, .enum n, .plain rfl,
        fun q hq ↦ ?_⟩⟩
      exact yields_readElement_enum hq (by rw [hq, ← he]; exact hres) hfit
    | _ => cases hfit
  | message target =>
    rw [he] at hfit hres
    cases v with
    | message i =>
      obtain ⟨inner, hm⟩ := hres
      obtain ⟨b, hb, hread⟩ := hfit inner hm
      have hw : m.writeElement reg write p (.message i) = .ok (writeLengthDelimited b) := by
        simp only [MessageMarshaller.writeElement, he, hm, hb, map_ok]
      refine ⟨_, hw, fun hl ↦ ?_⟩
      have hbl := Nat.lt_of_le_of_lt (length_le_writeLengthDelimited b) hl
      obtain ⟨read, rfl, j, hj, hR⟩ := hread hbl
      refine ⟨⟨.bytes b, rfl, rfl⟩, .message j, .message hR, fun q hq ↦ ?_⟩
      exact yields_readElement_message hq hm hj hbl
    | _ => cases hfit

end ProtoSchema
