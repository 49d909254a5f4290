import ProtoSchema.Proofs.Codec.Adapted
import ProtoSchema.Proofs.Types.Factories

/-!
# Arrays

An array travels as its size and its elements, which are two fields that know nothing of each other.
Either may be missing and either may come more than once, and the elements may be cut into records
in any way. The factory alone compares the two: it asks for the size that came last and for all the
elements that came, and refuses an array of another size. So decoding an array is told by two
numbers of its input, and what is written of an array always has them agree.
-/

set_option autoImplicit false

namespace ProtoSchema

open Wire FieldValues

/-! ## Numbers as elements

What the four array types have in common is asked of an array type once, in `Lawful`, and is then
all that is used of it. The elements are numbers, so they have a wire type of their own and may be
packed. -/

namespace ArrayForm

/-- The arrays with built-in adapters. -/
def all : List ArrayForm := [integers, longs, doubles, booleans]

/-- What an array type has to satisfy to be held as its elements: they are numbers, each is what its
payload stands for, and nothing else is. -/
structure Lawful (f : ArrayForm) : Prop where
  numeric : f.scalar.isPackable = true
  type_ofElements : ∀ as, (f.ofElements as).type = f.type
  elements?_ofElements : ∀ as, f.elements? (f.ofElements as) = some as
  fromValue_toValue : ∀ a, f.element.fromValue (f.element.toValue a) = .ok a
  exists_toPayload? : ∀ a, ∃ payload, f.scalar.toPayload? (f.element.toValue a) = some payload
  exists_toValue : ∀ payload v, f.scalar.ofPayload? payload = some v → ∃ a, v = f.element.toValue a

theorem lawful_of_mem {f : ArrayForm} (h : f ∈ all) : f.Lawful := by
  simp only [all, List.mem_cons, List.not_mem_nil, or_false] at h
  rcases h with rfl | rfl | rfl | rfl
  all_goals
    refine ⟨rfl, fun _ ↦ rfl, fun _ ↦ rfl, fun _ ↦ rfl, fun _ ↦ ⟨_, rfl⟩, fun payload v hv ↦ ?_⟩
    cases payload <;> cases hv
    exact ⟨_, rfl⟩

/-! ## What an input says of an array

An input says two things about an array: the size that came last, and the elements that came, in
order. Both can be told from its records without decoding anything. -/

/-- What the adapter describes. -/
def described (f : ArrayForm) : MessageInfo where
  members := [.single 1 "size" .uint32 f.sizeGetter, .list 2 "elements" f.scalar f.elementsGetter]
  factory := f.factory

/-- The plan for the size. -/
def sizePlan : Plan := .ofScalar (.single 1 "size" .uint32) .uint32 [0]

/-- The plan for the elements. -/
def elementsPlan (f : ArrayForm) : Plan := .ofScalar (.list 2 "elements" f.scalar) f.scalar [1]

/-- An input is made up of records, those with the number of the size hold varints, and those with
the number of the elements hold elements. -/
structure Readable (f : ArrayForm) (input : Bytes) : Prop where
  complete : Records input (recordsOf input)
  size : ∀ r ∈ recordsOf input, r.number = 1 → ∃ w, r.payload = .varint w
  elements : ∀ r ∈ recordsOf input, r.number = 2 → f.elementsPlan.HoldsElements r.payload

/-- The size that a record declares, if it holds any. -/
def sizeIn? (r : Record) : Option UInt32 :=
  match r.payload with
  | .varint w => some w.toUInt32
  | _ => none

/-- The size that counts among records: the last one, or zero. -/
def declaredSize (rs : List Record) : UInt32 := ((lastOf? 1 rs).bind sizeIn?).getD 0

/-- The elements in the records of an array, in order, whether they come in packed runs or not. -/
def Holds (f : ArrayForm) (rs : List Record) (as : List f.element.Carrier) : Prop :=
  List.Forall₂ (fun payload a ↦ f.scalar.ofPayload? payload = some (f.element.toValue a))
    (elementsOf f.scalar.wireType 2 rs) as

/-- The text about an array of another size than declared. -/
def sizeMessage (size count : Nat) : String :=
  "declared size " ++ toString size ++ " but " ++ toString count ++ " elements"

/-! ## The factory

The factory takes the size, or else zero, and the elements, or else none. Elements are determined by
their payloads, so that the values handed over are those of one list of elements. -/

variable {f : ArrayForm} {m : MessageMarshaller} {env : Environment} {resolve : Resolver}
  {reg : Registry} {input : Bytes}

theorem hasFieldsOnly_described (f : ArrayForm) : f.described.HasFieldsOnly := by
  intro member hmember
  simp only [described, List.mem_cons, List.not_mem_nil, or_false] at hmember
  rcases hmember with rfl | rfl <;> exact ⟨_, rfl⟩

theorem take_size (size : Option UInt32) {v : FieldValues}
    (hslot : v.slots[0]? = some (size.map .u32)) :
    FieldValues.take (.plain .u32) 0 v =
      .ok (size.getD 0, { v with slots := v.slots.set 0 none }) := by
  rw [FieldValues.take, bind_takeValue hslot]
  cases size <;> rfl

namespace Lawful

variable (hf : f.Lawful)
include hf

theorem wireType_ne : f.scalar.wireType ≠ .lengthDelimited := f.scalar.isPackable_iff.1 hf.numeric

theorem fromValue_list (as : List f.element.Carrier) :
    (NativeType.list f.element).fromValue (.list (as.map f.element.toValue)) = .ok as :=
  mapM_eq_ok.2 (List.forall₂_map_left_iff.2
    (List.forall₂_same.2 fun a _ ↦ hf.fromValue_toValue a))

theorem take_elements (as : List f.element.Carrier) {v : FieldValues}
    (hslot : v.slots[1]? = some (some (.list (as.map f.element.toValue)))) :
    FieldValues.take (.list f.element) 1 v =
      .ok (as, { v with slots := v.slots.set 1 none }) := by
  rw [FieldValues.take, bind_takeValue hslot]
  exact congrArg (explain 1 · _) (hf.fromValue_list as)

theorem factory_eq (size : Option UInt32) (as : List f.element.Carrier) (unknown : UnknownFields) :
    f.factory ⟨f.path, ["size", "elements"],
        [size.map .u32, some (.list (as.map f.element.toValue))], unknown⟩ =
      if (size.getD 0).toNat = as.length then .ok (f.ofElements as)
      else .error (.invalid f.path (sizeMessage (size.getD 0).toNat as.length)) := by
  have hsize := take_size size (v := ⟨f.path, ["size", "elements"],
    [size.map .u32, some (.list (as.map f.element.toValue))], unknown⟩) rfl
  have helements := hf.take_elements as (v := ⟨f.path, ["size", "elements"],
    [none, some (.list (as.map f.element.toValue))], unknown⟩) rfl
  split
  · next h =>
    exact Take.run'_eq_ok.2 ⟨_, Take.bind_eq_ok.2 ⟨_, _, hsize, Take.bind_eq_ok.2
      ⟨_, _, helements, congrFun (if_pos h) _⟩⟩⟩
  · next h =>
    exact Take.run'_eq_error.2 (Take.bind_eq_error.2 (.inr ⟨_, _, hsize, Take.bind_eq_error.2
      (.inr ⟨_, _, helements, congrFun (if_neg h) _⟩)⟩))

theorem exists_elements {payloads : List Payload} {vs : List Value}
    (h : List.Forall₂ (fun payload v ↦ f.scalar.ofPayload? payload = some v) payloads vs) :
    ∃ as : List f.element.Carrier, vs = as.map f.element.toValue ∧
      List.Forall₂ (fun payload a ↦ f.scalar.ofPayload? payload = some (f.element.toValue a))
        payloads as := by
  induction h with
  | nil => exact ⟨[], rfl, .nil⟩
  | cons hv _ ih =>
    obtain ⟨a, rfl⟩ := hf.exists_toValue _ _ hv
    obtain ⟨as, rfl, has⟩ := ih
    exact ⟨a :: as, rfl, .cons hv has⟩

theorem exists_payloads (as : List f.element.Carrier) : ∃ payloads,
    List.Forall₂ (fun v payload ↦ f.scalar.toPayload? v = some payload)
      (as.map f.element.toValue) payloads := by
  induction as with
  | nil => exact ⟨[], .nil⟩
  | cons a as ih =>
    obtain ⟨payload, hpayload⟩ := hf.exists_toPayload? a
    obtain ⟨payloads, hpayloads⟩ := ih
    exact ⟨payload :: payloads, .cons hpayload hpayloads⟩

theorem eq_of_payloads {as as' : List f.element.Carrier} {payloads : List Payload}
    (h : List.Forall₂ (fun v payload ↦ f.scalar.toPayload? v = some payload)
      (as.map f.element.toValue) payloads)
    (h' : List.Forall₂ (fun payload a ↦ f.scalar.ofPayload? payload = some (f.element.toValue a))
      payloads as') : as' = as := by
  induction h' generalizing as with
  | nil => exact (List.map_eq_nil_iff.1 (List.forall₂_nil_right_iff.1 h)).symm
  | @cons payload a payloads as' ha _ ih =>
    cases as with
    | nil => cases h
    | cons b as =>
      cases h with
      | cons hb hrest =>
        have hvalue := Option.some.inj (ha.symm.trans (Scalar.ofPayload?_of_toPayload? hb))
        have hsame := hf.fromValue_toValue a
        rw [hvalue, hf.fromValue_toValue] at hsame
        rw [Except.ok.inj hsame, ih hrest]

end Lawful

/-! ## Decoding

An input is readable exactly if each of its records can be taken: a varint for the size, and
elements for the elements. What is readable is decoded up to the factory, and anything else is
refused by the wire. -/

section

variable (hm : m.MadeOf env resolve f.info f.described)
include hm

theorem plans_eq : m.plans = [sizePlan, f.elementsPlan] := by
  have hplans := hm.forall₂_plans
  rw [(hasFieldsOnly_described f).leaves_eq] at hplans
  obtain ⟨p, rest, hp, hrest, hall⟩ := List.forall₂_cons_left_iff.1 hplans
  obtain ⟨q, rest, hq, hnil, rfl⟩ := List.forall₂_cons_left_iff.1 hrest
  rw [hall, List.forall₂_nil_left_iff.1 hnil,
    Plan.eq_ofScalar hp (fun f b hf ↦ Member.toField_single hf) rfl,
    Plan.eq_ofScalar hq (fun f b hf ↦ Member.toField_list hf) rfl]
  rfl

theorem isPlain (hf : f.Lawful) : m.IsPlain := by
  intro p hp
  rw [plans_eq hm] at hp
  simp only [List.mem_cons, List.not_mem_nil, or_false] at hp
  rcases hp with rfl | rfl
  · exact Plan.isPlain_single ..
  · exact Plan.isPlain_list hf.wireType_ne

theorem decode_of_readAll (hf : f.Lawful) (hreg : reg.messageMarshaller? f.type = some m)
    (hread : ∃ effects,
      (readAll (m.readRecord reg (reg.nestedAt nestingLimit)) input).result = .ok effects) :
    ∃ as, f.Holds (recordsOf input) as ∧
      ((declaredSize (recordsOf input)).toNat = as.length →
        (reg.decode f.type input).result = .ok (f.ofElements as)) ∧
      ((declaredSize (recordsOf input)).toNat ≠ as.length →
        (reg.decode f.type input).result = .error (.factory (.invalid f.path
          (sizeMessage (declaredSize (recordsOf input)).toNat as.length)))) := by
  obtain ⟨effects, hread⟩ := hread
  obtain ⟨hand, unknown, hhands, hdecode⟩ :=
    hm.exists_values (hasFieldsOnly_described f) (isPlain hm hf) hread
  have hplans := plans_eq hm
  have hsingle := hhands.single sizePlan (by rw [hplans]; exact .head _) rfl
  obtain ⟨vs, hlist, hvs⟩ :=
    hhands.list f.elementsPlan (by rw [hplans]; exact .tail _ (.head _)) rfl
  obtain ⟨as, rfl, has⟩ := hf.exists_elements hvs
  have hvalue : (fun r : Record ↦ sizePlan.element.valueOf? r.payload) =
      fun r ↦ (sizeIn? r).map Value.u32 := by
    funext r
    rw [sizeIn?]
    cases r.payload <;> rfl
  have hsize : hand [0] = ((lastOf? 1 (recordsOf input)).bind sizeIn?).map Value.u32 := by
    rw [Option.map_bind]
    exact hsingle.trans (congrArg _ hvalue)
  have hfactory := hf.factory_eq ((lastOf? 1 (recordsOf input)).bind sizeIn?) as unknown
  rw [← hsize, ← hlist] at hfactory
  have hfactory := hdecode.trans (congrArg (Except.mapError DecodeError.factory) hfactory)
  refine ⟨as, has, fun h ↦ ?_, fun h ↦ ?_⟩
  · rw [declaredSize] at h
    rw [if_pos h, mapError_ok] at hfactory
    exact (Registry.decode_eq_ok hreg).2 ⟨hfactory, hf.type_ofElements as⟩
  · rw [declaredSize] at h ⊢
    rw [if_neg h, mapError_error] at hfactory
    exact Registry.decode_eq_error hreg hfactory

theorem takes_iff {r : Record} : m.Takes r ↔ (r.number = 1 → ∃ w, r.payload = .varint w) ∧
    (r.number = 2 → f.elementsPlan.HoldsElements r.payload) := by
  have hplans := plans_eq hm
  have hplan : ∀ k p, m.plans[k]? = some p → r.number = p.field.number →
      m.plan? r.number = some (k, p) := fun k p hp hnumber ↦
    hnumber ▸ MessageMarshaller.plan?_of_getElem? hm.wellFormed.numbers hp
  constructor
  · refine fun h ↦ ⟨fun hnumber ↦ ?_, fun hnumber ↦ ?_⟩
    · obtain ⟨v, hv⟩ := h 0 sizePlan (hplan 0 sizePlan (by rw [hplans]; rfl) hnumber)
      cases hpayload : r.payload with
      | varint w => exact ⟨w, rfl⟩
      | _ =>
        rw [hpayload] at hv
        cases hv
    · exact h 1 f.elementsPlan (hplan 1 f.elementsPlan (by rw [hplans]; rfl) hnumber)
  · rintro ⟨hsize, helements⟩ k p hp
    obtain ⟨hk, hnumber⟩ := MessageMarshaller.plan?_eq_some hp
    have hmem := List.mem_of_getElem? hk
    rw [hplans] at hmem
    simp only [List.mem_cons, List.not_mem_nil, or_false] at hmem
    rcases hmem with rfl | rfl
    · obtain ⟨w, hw⟩ := hsize hnumber.symm
      exact ⟨.u32 w.toUInt32, by rw [hw]; rfl⟩
    · exact helements hnumber.symm

/-- What is readable is what decoding reads, and only the wire refuses anything else. -/
theorem readable_iff (hf : f.Lawful) : f.Readable input ↔ ∃ effects,
    (readAll (m.readRecord reg (reg.nestedAt nestingLimit)) input).result = .ok effects := by
  rw [(isPlain hm hf).readAll_iff hm.wellFormed]
  constructor
  · rintro ⟨hcomplete, hsize, helements⟩
    exact ⟨hcomplete, fun r hr ↦ (takes_iff hm).2 ⟨hsize r hr, helements r hr⟩⟩
  · rintro ⟨hcomplete, htakes⟩
    exact ⟨hcomplete, fun r hr ↦ ((takes_iff hm).1 (htakes r hr)).1,
      fun r hr ↦ ((takes_iff hm).1 (htakes r hr)).2⟩

end

/-! ## Encoding

An array is written as its size and one run of its elements, and not at all if it has none. That the
run can be read back takes a bound on its length, which follows from that on the number of elements,
since a number takes ten bytes at most. -/

/-- The records that are written of elements with the given payloads. -/
def written (payloads : List Payload) : List Record :=
  if payloads.isEmpty then []
  else [⟨1, .varint (UInt32.ofNat payloads.length).toUInt64⟩,
    ⟨2, .bytes (payloads.flatMap Payload.encode)⟩]

theorem isZero_length {α : Type} {l : List α} (h : l.length < UInt32.size) :
    (Value.u32 (UInt32.ofNat l.length)).isZero = l.isEmpty := by
  cases l with
  | nil => rfl
  | cons a l =>
    have hlength := UInt32.toNat_ofNat_of_lt' h
    refine beq_eq_false_iff_ne.2 fun hzero ↦ Nat.succ_ne_zero l.length ?_
    rw [hzero] at hlength
    exact hlength.symm

theorem encode_eq (hf : f.Lawful) (hm : m.MadeOf env resolve f.info f.described)
    (hreg : reg.messageMarshaller? f.type = some m) {as : List f.element.Carrier}
    (hlength : as.length < UInt32.size) {payloads : List Payload}
    (hpayloads : List.Forall₂ (fun v payload ↦ f.scalar.toPayload? v = some payload)
      (as.map f.element.toValue) payloads) :
    reg.encode (f.ofElements as) = .ok ((written payloads).flatMap Record.encode) := by
  have hcount : payloads.length = as.length := by
    rw [← hpayloads.length_eq, List.length_map]
  have hsize : m.layout.get? (f.ofElements as) [0] = some (.u32 (UInt32.ofNat as.length)) := by
    rw [hm.get?_eq (hasFieldsOnly_described f) (k := 0) rfl]
    simp only [Member.single, sizeGetter, Getter.shallow, hf.elements?_ofElements, if_pos hlength]
  have helements : m.layout.get? (f.ofElements as) [1] =
      some (.list (as.map f.element.toValue)) := by
    rw [hm.get?_eq (hasFieldsOnly_described f) (k := 1) rfl]
    simp only [Member.list, elementsGetter, Getter.shallow, hf.elements?_ofElements,
      Option.map_some]
  rw [hm.encode_eq (hasFieldsOnly_described f) rfl hreg (hf.type_ofElements as), plans_eq hm,
    MessageMarshaller.writeAll, MessageMarshaller.writeAll, MessageMarshaller.writeAll, sizePlan,
    elementsPlan, MessageMarshaller.writePlan_single hsize rfl,
    MessageMarshaller.writePlan_list hf.numeric helements hpayloads]
  simp only [ok_bind, pure_eq_ok, List.append_nil]
  have hempty : (as.map f.element.toValue).isEmpty = payloads.isEmpty := by
    rw [Bool.eq_iff_iff, List.isEmpty_iff_length_eq_zero, List.isEmpty_iff_length_eq_zero,
      hpayloads.length_eq]
  rw [hempty, ← hcount, isZero_length (hcount ▸ hlength), written]
  cases payloads.isEmpty <;> simp

theorem length_encode_payload {payload : Payload} (h : payload.wireType ≠ .lengthDelimited) :
    payload.encode.length ≤ 10 := by
  cases payload with
  | varint w => exact Varint.length_encode_le w
  | fixed64 w =>
    rw [Payload.encode, writeFixed64, length_littleEndian]
    decide
  | fixed32 w =>
    rw [Payload.encode, writeFixed32, length_littleEndian]
    decide
  | bytes b => exact absurd rfl h

theorem length_run_le {payloads : List Payload}
    (h : ∀ payload ∈ payloads, payload.wireType ≠ .lengthDelimited) :
    (payloads.flatMap Payload.encode).length ≤ 10 * payloads.length := by
  induction payloads with
  | nil => exact Nat.le_refl 0
  | cons payload rest ih =>
    obtain ⟨hpayload, hrest⟩ := List.forall_mem_cons.1 h
    have hfirst := length_encode_payload hpayload
    have hothers := ih hrest
    rw [List.flatMap_cons, List.length_append, List.length_cons]
    omega

theorem length_written {payloads : List Payload} (hlength : payloads.length < UInt32.size)
    (hnumeric : ∀ payload ∈ payloads, payload.wireType ≠ .lengthDelimited) :
    ((written payloads).flatMap Record.encode).length < UInt64.size := by
  have hrun := length_run_le hnumeric
  unfold written
  split
  · decide
  · have hword := Varint.length_encode_le
    have htag₁ := hword (Tag.key ⟨1, .varint⟩)
    have htag₂ := hword (Tag.key ⟨2, .lengthDelimited⟩)
    have hsize := hword (UInt32.ofNat payloads.length).toUInt64
    have hlen := hword (UInt64.ofNat (payloads.flatMap Payload.encode).length)
    simp only [List.flatMap_cons, List.flatMap_nil, List.append_nil, List.length_append,
      Record.encode, Record.tag, Tag.encode, Payload.wireType, Payload.encode, writeLengthDelimited]
    simp only [UInt32.size, UInt64.size] at *
    omega

theorem records_written {payloads : List Payload} (hlength : payloads.length < UInt32.size)
    (hnumeric : ∀ payload ∈ payloads, payload.wireType ≠ .lengthDelimited) :
    Records ((written payloads).flatMap Record.encode) (written payloads) := by
  refine records_flatMap_encode ?_ (length_written hlength hnumeric)
  unfold written
  split
  · exact fun r hr ↦ absurd hr List.not_mem_nil
  · simp [Record.tag, Tag.IsValid, maxFieldNumber]

theorem declaredSize_written {payloads : List Payload} (hlength : payloads.length < UInt32.size) :
    (declaredSize (written payloads)).toNat = payloads.length := by
  unfold written
  split
  · next hnil =>
    rw [List.isEmpty_iff.1 hnil]
    rfl
  · have hsize : (UInt32.ofNat payloads.length).toUInt64.toUInt32.toNat = payloads.length := by
      rw [UInt32.toUInt32_toUInt64, UInt32.toNat_ofNat_of_lt' hlength]
    exact hsize

section

variable {w : WireType} (hw : w ≠ .lengthDelimited) {payloads : List Payload}
  (hlength : payloads.length < UInt32.size) (hpayloads : ∀ payload ∈ payloads, payload.wireType = w)
include hw hlength hpayloads

theorem run_payloads : Run w (payloads.flatMap Payload.encode) payloads := by
  have hle := length_run_le fun payload hpayload ↦ hpayloads payload hpayload ▸ hw
  refine run_flatMap_encode hpayloads ?_
  simp only [UInt32.size, UInt64.size] at *
  omega

theorem elementsOf_written : elementsOf w 2 (written payloads) = payloads := by
  unfold written
  split
  · next hnil =>
    rw [List.isEmpty_iff.1 hnil]
    rfl
  · have hne : (⟨1, .varint (UInt32.ofNat payloads.length).toUInt64⟩ : Record).number ≠ 2 :=
      show (1 : Nat) ≠ 2 by decide
    rw [elementsOf_cons_of_ne hne, elementsOf_cons_self, elementsIn]
    exact (List.append_nil _).trans (run_payloads hw hlength hpayloads).split_eq

theorem takes_written (hm : m.MadeOf env resolve f.info f.described)
    (hfw : f.scalar.wireType = w) : ∀ r ∈ written payloads, m.Takes r := by
  intro r hr
  unfold written at hr
  split at hr
  · cases hr
  · simp only [List.mem_cons, List.not_mem_nil, or_false] at hr
    rcases hr with rfl | rfl
    · exact (takes_iff hm).2 ⟨fun _ ↦ ⟨_, rfl⟩, fun h ↦ by cases h⟩
    · refine (takes_iff hm).2 ⟨(fun h ↦ by cases h), fun _ ↦ .inr ⟨_, payloads, rfl, ?_⟩⟩
      have hrun := run_payloads hw hlength hpayloads
      rwa [← hfw] at hrun

end

theorem decode_written (hf : f.Lawful) (hm : m.MadeOf env resolve f.info f.described)
    (hreg : reg.messageMarshaller? f.type = some m) {as : List f.element.Carrier}
    (hlength : as.length < UInt32.size) {payloads : List Payload}
    (hpayloads : List.Forall₂ (fun v payload ↦ f.scalar.toPayload? v = some payload)
      (as.map f.element.toValue) payloads) :
    (reg.decode f.type ((written payloads).flatMap Record.encode)).result =
      .ok (f.ofElements as) := by
  have hcount : payloads.length = as.length := by
    rw [← hpayloads.length_eq, List.length_map]
  have hwire : ∀ payload ∈ payloads, payload.wireType = f.scalar.wireType := by
    intro payload hpayload
    obtain ⟨v, -, hv⟩ := exists_of_forall₂_right hpayloads hpayload
    exact Scalar.wireType_of_toPayload? hv
  have hshort : payloads.length < UInt32.size := hcount ▸ hlength
  have hrecords := records_written hshort fun payload hpayload ↦
    hwire payload hpayload ▸ hf.wireType_ne
  have hsplit : recordsOf ((written payloads).flatMap Record.encode) = written payloads :=
    (records_iff.1 hrecords).2
  obtain ⟨as', has', hok, -⟩ := decode_of_readAll hm hf hreg
    ((isPlain hm hf).exists_readAll hm.wellFormed hrecords
      (takes_written hf.wireType_ne hshort hwire hm rfl))
  rw [Holds, hsplit, elementsOf_written hf.wireType_ne hshort hwire] at has'
  rw [hsplit, declaredSize_written hshort] at hok
  obtain rfl := hf.eq_of_payloads hpayloads has'
  exact hok hcount

/-- **Arrays.** A registry that adapts an array type writes each array of fewer than `2 ^ 32`
elements and reads it back. It reads exactly the inputs that hold a size and elements in any
records, and builds an array of all these elements if the size that came last is their number, where
a missing size is zero. If it is not, that is the error. -/
theorem adapted_sized (hf : f ∈ all) (h : reg.Adapts f.info) :
    (∀ as : List f.element.Carrier, as.length < UInt32.size → ∃ b,
      reg.encode (f.ofElements as) = .ok b ∧
        (reg.decode f.type b).result = .ok (f.ofElements as)) ∧
    (∀ input, (∀ w, (reg.decode f.type input).result ≠ .error (.wire w)) ↔ f.Readable input) ∧
    ∀ input, f.Readable input → ∃ as, f.Holds (recordsOf input) as ∧
      ((declaredSize (recordsOf input)).toNat = as.length →
        (reg.decode f.type input).result = .ok (f.ofElements as)) ∧
      ((declaredSize (recordsOf input)).toNat ≠ as.length →
        (reg.decode f.type input).result = .error (.factory (.invalid f.path
          (sizeMessage (declaredSize (recordsOf input)).toNat as.length)))) := by
  have hf := lawful_of_mem hf
  obtain ⟨m, env, resolve, hreg, hm⟩ := h.exists_madeOf rfl
  refine ⟨fun as hlength ↦ ?_, fun input ↦ ⟨fun hinput ↦ ?_, fun hinput w hw ↦ ?_⟩,
    fun input hinput ↦ decode_of_readAll hm hf hreg ((readable_iff hm hf).1 hinput)⟩
  · obtain ⟨payloads, hpayloads⟩ := hf.exists_payloads as
    exact ⟨_, encode_eq hf hm hreg hlength hpayloads, decode_written hf hm hreg hlength hpayloads⟩
  · exact (readable_iff hm hf).2 ((isPlain hm hf).exists_readAll_of_decode hreg hinput)
  · obtain ⟨as, -, hok, herror⟩ := decode_of_readAll hm hf hreg ((readable_iff hm hf).1 hinput)
    by_cases hsize : (declaredSize (recordsOf input)).toNat = as.length
    · cases hw.symm.trans (hok hsize)
    · cases hw.symm.trans (herror hsize)

/-- A registry with arrays of 32-bit integers and nothing else. -/
def registry : Registry :=
  CompilationUnit.registry { fileName := "array.proto", requested := [.adapted .integers] } []

theorem adapts_registry : registry.Adapts integers.info := by
  have hmem : integers.info ∈ builtinAdapters := by simp [builtinAdapters]
  exact CompilationUnit.adapts (fun i hi ↦ eq_of_builtinAdapters hi hmem) (by decide +kernel)

/-- Two elements in a run, the size, and an element on its own. -/
def mixed : Bytes := [0x12, 0x02, 0x07, 0x08] ++ [0x08, 0x03] ++ [0x10, 0x09]

theorem recordsOf_mixed : Records mixed (recordsOf mixed) ∧
    recordsOf mixed = [⟨2, .bytes [7, 8]⟩, ⟨1, .varint 3⟩, ⟨2, .varint 9⟩] := by
  have hrecords : Records mixed [⟨2, .bytes [7, 8]⟩, ⟨1, .varint 3⟩, ⟨2, .varint 9⟩] :=
    .cons rfl (.cons rfl (.cons rfl .nil))
  have hsplit : recordsOf mixed = _ := (records_iff.1 hrecords).2
  exact ⟨hsplit ▸ hrecords, hsplit⟩

theorem readable_mixed : integers.Readable mixed := by
  obtain ⟨hcomplete, hrecords⟩ := recordsOf_mixed
  have hrun : Run .varint [7, 8] [.varint 7, .varint 8] := .cons rfl (.cons rfl .nil)
  refine ⟨hcomplete, ?_, ?_⟩
  · rw [hrecords]
    simp
  · rw [hrecords]
    simp only [List.forall_mem_cons, List.not_mem_nil, false_implies, implies_true, and_true]
    exact ⟨fun _ ↦ .inr ⟨_, _, rfl, hrun⟩, (fun h ↦ by cases h), fun _ ↦ .inl rfl⟩

theorem eq_of_holds_mixed {as : List Int32} (h : integers.Holds (recordsOf mixed) as) :
    as = [7, 8, 9] := by
  have helements : elementsOf .varint 2 (recordsOf mixed) = [.varint 7, .varint 8, .varint 9] := by
    rw [recordsOf_mixed.2]
    decide +kernel
  have hvalues : List.Forall₂ (fun payload a ↦ Scalar.int32.ofPayload? payload = some (.i32 a))
      [.varint 7, .varint 8, .varint 9] as := helements ▸ h
  rcases hvalues with _ | ⟨h₁, _ | ⟨h₂, _ | ⟨h₃, _ | _⟩⟩⟩
  cases h₁
  cases h₂
  cases h₃
  rfl

/-- The size and the elements come in any order, and so a size of three fits. -/
theorem adapted_sized_mixed : integers ∈ all ∧ registry.Adapts integers.info ∧
    (registry.decode .integers mixed).result = .ok (.integers [7, 8, 9]) ∧
    ∃ b, registry.encode (.integers [7, 8, 9]) = .ok b ∧
      (registry.decode .integers b).result = .ok (.integers [7, 8, 9]) := by
  have hmem : integers ∈ all := by simp [all]
  obtain ⟨hencode, -, hdecode⟩ := adapted_sized hmem adapts_registry
  obtain ⟨as, has, hok, -⟩ := hdecode mixed readable_mixed
  have hsize : (declaredSize (recordsOf mixed)).toNat = 3 := by
    rw [recordsOf_mixed.2]
    rfl
  have hthree : ([7, 8, 9] : List Int32).length < UInt32.size := by decide
  obtain rfl := eq_of_holds_mixed has
  exact ⟨hmem, adapts_registry, hok hsize, hencode _ hthree⟩

end ArrayForm

end ProtoSchema
