import ProtoSchema.Proofs.Codec.Unknown

/-!
# What payloads mean

A reader of a field takes a payload off the input and makes a value of it. The second half needs no
input: the payload alone determines the value, as a scalar, as a number of an enum or, given a
reader of nested messages, as a message. Said in this way, a value is the same wherever its payload
stands, in a record of its own, in a packed run or in a map entry, and every reader of elements is
the taking of a payload followed by its meaning.

An enum number has a meaning whether it is declared or not. That a closed enum rejects it is a
judgement on the value.
-/

set_option autoImplicit false

namespace ProtoSchema

open Wire

/-! ## Scalars

Every scalar type makes its values of the payloads of one wire type. Only bytes that are no text
stand for nothing. -/

namespace Scalar

/-- The value of a scalar type that a payload stands for. Among the payloads of the type's wire
type, only bytes that are no text stand for nothing. -/
def ofPayload? : Scalar → Payload → Option Value
  | int32, .varint w => some (.i32 w.toUInt32.toInt32)
  | sint32, .varint w => some (.i32 (ZigZag.decode32 w.toUInt32))
  | int64, .varint w => some (.i64 w.toInt64)
  | sint64, .varint w => some (.i64 (ZigZag.decode64 w))
  | uint32, .varint w => some (.u32 w.toUInt32)
  | uint64, .varint w => some (.u64 w)
  | bool, .varint w => some (.bool (w != 0))
  | sfixed32, .fixed32 w => some (.i32 w.toInt32)
  | fixed32, .fixed32 w => some (.u32 w)
  | float, .fixed32 w => some (.f32 ⟨w⟩)
  | sfixed64, .fixed64 w => some (.i64 w.toInt64)
  | fixed64, .fixed64 w => some (.u64 w)
  | double, .fixed64 w => some (.f64 ⟨w⟩)
  | string, .bytes b => (textOfBytes? b).map .string
  | bytes, .bytes b => some (.bytes b)
  | _, _ => none

variable {s : Scalar} {payload : Payload} {v : Value}

theorem wireType_of_ofPayload? (h : s.ofPayload? payload = some v) :
    payload.wireType = s.wireType := by
  cases s <;> cases payload <;> first | rfl | cases h

theorem exists_ofPayload? (hs : s.wireType ≠ .lengthDelimited)
    (h : payload.wireType = s.wireType) : ∃ v, s.ofPayload? payload = some v := by
  cases s <;> cases payload <;> first | exact ⟨_, rfl⟩ | exact absurd rfl hs | cases h

theorem read_eq (s : Scalar) (number : Nat) (input : Bytes) :
    s.read number input = Payload.decode s.wireType input >>= fun (payload, rest) ↦
      match s.ofPayload? payload with
      | some v => .ok (v, rest)
      | none => .error (.invalidUtf8 number) := by
  cases s with
  | int32 | sint32 | int64 | sint64 | uint32 | uint64 | bool =>
    simp only [read, wireType, Payload.decode, readAs]
    cases Varint.decode input <;> rfl
  | sfixed32 | fixed32 | float =>
    simp only [read, wireType, Payload.decode, readAs]
    cases readFixed32 input <;> rfl
  | sfixed64 | fixed64 | double =>
    simp only [read, wireType, Payload.decode, readAs]
    cases readFixed64 input <;> rfl
  | string =>
    simp only [read, wireType, Payload.decode, readAs]
    cases readLengthDelimited input with
    | error e => rfl
    | ok taken =>
      simp only [ok_bind, pure_eq_ok, ofPayload?]
      cases textOfBytes? taken.1 <;> rfl
  | bytes =>
    simp only [read, wireType, Payload.decode, readAs]
    cases readLengthDelimited input <;> rfl

theorem read_eq_ok {number : Nat} {input rest : Bytes} :
    s.read number input = .ok (v, rest) ↔
      ∃ payload, Payload.decode s.wireType input = .ok (payload, rest) ∧
        s.ofPayload? payload = some v := by
  rw [read_eq, bind_eq_ok]
  constructor
  · rintro ⟨⟨payload, left⟩, hpayload, h⟩
    dsimp only at h
    split at h
    · next w hw =>
      cases h
      exact ⟨payload, hpayload, hw⟩
    · cases h
  · rintro ⟨payload, hpayload, hv⟩
    exact ⟨(payload, rest), hpayload, by simp only [hv]⟩

end Scalar

/-! ## Elements

Messages have a meaning only with a reader of nested messages, so what a payload stands for in
general is a relation. For scalars and enums it is a function, and the judgement whether a number is
declared comes after it. -/

/-- The scalar or enum number that a payload stands for as an element. -/
def Element.valueOf? : Element → Payload → Option Value
  | scalar s, payload => s.ofPayload? payload
  | enum _ _, .varint w => some (.enum w.toUInt32.toInt32)
  | _, _ => none

theorem Element.wireType_of_valueOf? {e : Element} {payload : Payload} {v : Value}
    (h : e.valueOf? payload = some v) : payload.wireType = e.wireType := by
  cases e with
  | scalar s => exact Scalar.wireType_of_ofPayload? h
  | enum target isOpen => cases payload <;> first | rfl | cases h
  | message target => cases payload <;> cases h

theorem Element.exists_valueOf? {e : Element} {payload : Payload}
    (he : e.wireType ≠ .lengthDelimited) (h : payload.wireType = e.wireType) :
    ∃ v, e.valueOf? payload = some v := by
  cases e with
  | scalar s => exact Scalar.exists_ofPayload? he h
  | enum target isOpen => cases payload <;> first | exact ⟨_, rfl⟩ | cases h
  | message target => exact absurd rfl he

section

variable (p : Plan) (reg : Registry) (nested : NestedReader)

/-- The number of a value, if the field is one of a closed enum that does not declare it. -/
def Plan.undeclared? (v : Value) : Option Int32 :=
  match p.element, v with
  | .enum target false, .enum n =>
    (reg.enumMarshaller? target).bind fun e ↦ if e.isKnown n then none else some n
  | _, _ => none

/-- What a reader of elements makes of a value. -/
def Plan.judge (v : Value) : Reading :=
  match p.undeclared? reg v with
  | some n => .rejected n
  | none => .accepted v

/-- The value that a payload stands for as an element of a field, messages included. -/
inductive Plan.ReadsAs : Payload → Value → Prop
  | plain {payload : Payload} {v : Value} (h : p.element.valueOf? payload = some v) :
      ReadsAs payload v
  | message {target : TypeId} {m : MessageMarshaller} {frame : Bytes} {i : Instance}
      (he : p.element = .message target) (hm : reg.messageMarshaller? target = some m)
      (hi : (nested.run m frame).result = .ok i) : ReadsAs (.bytes frame) (.message i)

end

variable {p : Plan} {reg : Registry} {nested : NestedReader} {payload : Payload} {v : Value}
  {input rest : Bytes}

theorem Plan.rejected?_eq (h : p.element.valueOf? payload = some v) :
    p.rejected? reg payload = p.undeclared? reg v := by
  cases he : p.element with
  | scalar s => cases payload <;> simp only [rejected?, undeclared?, he]
  | enum target isOpen =>
    rw [he] at h
    cases payload with
    | varint w =>
      cases h
      cases isOpen <;> simp only [rejected?, undeclared?, he]
    | _ => cases h
  | message target =>
    rw [he] at h
    cases payload <;> cases h

theorem Plan.judge_eq_accepted (h : p.undeclared? reg v = none) : p.judge reg v = .accepted v := by
  rw [judge, h]

theorem Plan.judge_eq_rejected {n : Int32} (h : p.undeclared? reg v = some n) :
    p.judge reg v = .rejected n := by
  rw [judge, h]

/-- **Elements are payloads.** A payload of a field's wire type is read as what it stands for, and
judged. -/
theorem readElement_of_valueOf? (hres : p.element.Resolved reg)
    (hpayload : Payload.decode p.element.wireType input = .ok (payload, rest))
    (hv : p.element.valueOf? payload = some v) :
    (readElement reg nested p input).result = .ok (p.judge reg v, rest) := by
  cases he : p.element with
  | scalar s =>
    rw [he] at hpayload hv
    have hread : s.read p.field.number input = .ok (v, rest) :=
      Scalar.read_eq_ok.2 ⟨payload, hpayload, hv⟩
    have hjudge : p.judge reg v = .accepted v :=
      Plan.judge_eq_accepted (by simp only [Plan.undeclared?, he])
    simp only [readElement, he, Logged.result_bind, result_ofWire, hread, mapError_ok, ok_bind,
      Logged.result_pure, hjudge]
  | enum target isOpen =>
    rw [he] at hpayload hv hres
    obtain ⟨w, rfl, hw⟩ := Payload.decode_varint hpayload
    cases hv
    obtain ⟨e, hmarshaller⟩ := hres
    simp only [readElement, he, Logged.result_bind, result_ofWire, hw, mapError_ok, ok_bind,
      Logged.result_ofExcept, Logged.result_pure]
    cases isOpen with
    | true => simp only [Registry.judgeNumber, if_pos, Plan.judge, Plan.undeclared?, he, ok_bind]
    | false =>
      by_cases hknown : e.isKnown w.toUInt32.toInt32 = true
      · simp only [Registry.judgeNumber, if_neg Bool.false_ne_true, hmarshaller, if_pos hknown,
          Plan.judge, Plan.undeclared?, he, Option.bind_some, ok_bind]
      · simp only [Registry.judgeNumber, if_neg Bool.false_ne_true, hmarshaller, if_neg hknown,
          Plan.judge, Plan.undeclared?, he, Option.bind_some, ok_bind]
  | message target =>
    rw [he] at hv
    cases payload <;> cases hv

theorem readElement_eq_accepted (hres : p.element.Resolved reg) :
    (readElement reg nested p input).result = .ok (.accepted v, rest) ↔
      ∃ payload, Payload.decode p.element.wireType input = .ok (payload, rest) ∧
        p.ReadsAs reg nested payload v ∧ p.undeclared? reg v = none := by
  constructor
  · intro h
    have hread := readElement_eq_ok h
    generalize he : p.element = element at hread
    cases hread with
    | scalar hread =>
      obtain ⟨payload, hpayload, hv⟩ := Scalar.read_eq_ok.1 hread
      exact ⟨payload, hpayload, .plain (by rw [he]; exact hv), by simp only [Plan.undeclared?, he]⟩
    | openEnum hword =>
      exact ⟨_, Payload.decode_of_word hword, .plain (by rw [he]; rfl),
        by simp only [Plan.undeclared?, he]⟩
    | closedEnum hword hmarshaller hknown =>
      exact ⟨_, Payload.decode_of_word hword, .plain (by rw [he]; rfl),
        by simp only [Plan.undeclared?, he, hmarshaller, Option.bind_some, if_pos hknown]⟩
    | message hframe hm hi =>
      exact ⟨_, Payload.decode_of_frame hframe, .message he hm hi,
        by simp only [Plan.undeclared?, he]⟩
  · rintro ⟨payload, hpayload, hholds, hdeclared⟩
    cases hholds with
    | plain hv => rw [readElement_of_valueOf? hres hpayload hv, Plan.judge_eq_accepted hdeclared]
    | @message target m frame i he hm hi =>
      rw [he] at hpayload
      obtain ⟨frame', hsame, hframe⟩ := Payload.decode_frame hpayload
      cases hsame
      -- A reader that finds an instance is there.
      have hsome : nested.isNone = false := by
        cases nested with
        | none => cases hi
        | some read => rfl
      simp only [readElement, he, Logged.result_bind, result_ofWire, hframe, mapError_ok, ok_bind,
        hsome, if_neg Bool.false_ne_true, Registry.elementMarshaller, hm, Logged.result_ofExcept,
        hi, Logged.result_pure]

end ProtoSchema
