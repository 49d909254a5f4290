import ProtoSchema.Proofs.Codec.Adapted
import ProtoSchema.Proofs.Value.TwosComplement

/-!
# Integers of any size

An integer travels as one field with its bytes in two's complement. The field is left out when it
holds its default, which is the empty run of bytes, but no integer is written as that: zero is one
zero byte. So every integer has one message, the canonical one, and it is the only one that is
written. What is read need not be canonical. The bytes may be longer than they have to be, the field
may come more than once, and it may be missing, and still the message is that of an integer.
-/

set_option autoImplicit false

namespace ProtoSchema

open Wire

namespace BigInteger

/-- What the adapter describes. -/
def described : MessageInfo where
  members := [.single 1 "bytes" .bytes bigIntegerBytes]
  factory := bigIntegerFactory
  factoryParams := some ["bytes"]

/-- The plan for the bytes. -/
def plan : Plan := .ofScalar (.single 1 "bytes" .bytes) .bytes [0]

/-- The canonical message of an integer. -/
def message (n : Int) : Bytes := Record.encode ⟨1, .bytes (TwosComplement.encode n)⟩

/-- An input is made up of records, and those with the number of the bytes hold bytes. -/
structure Readable (input : Bytes) : Prop where
  complete : Records input (recordsOf input)
  bytes : ∀ r ∈ recordsOf input, r.number = 1 → ∃ s, r.payload = .bytes s

/-! ## What an input says of an integer

Of all records with the number of the bytes only the last one counts. If there is none, the bytes
are empty, and they denote zero. -/

/-- The bytes that a record holds, if it holds any. -/
def bytesIn? (r : Record) : Option Bytes :=
  match r.payload with
  | .bytes s => some s
  | _ => none

/-- The bytes that count in an input: those of the last record with their number, or none. -/
def bytesOf (input : Bytes) : Bytes := ((lastOf? 1 (recordsOf input)).bind bytesIn?).getD []

/-! ## The marshaller

There is one plan, which is plain, and the factory makes the integer of the bytes that it is handed.
So decoding comes to reading the records and looking for the last one. -/

variable {m : MessageMarshaller} {env : Environment} {resolve : Resolver} {reg : Registry}
  {input : Bytes}

theorem hasFieldsOnly_described : described.HasFieldsOnly := by
  intro member hmember
  rw [List.mem_singleton.1 hmember]
  exact ⟨_, rfl⟩

theorem factory_eq (s : Option Bytes) (unknown : UnknownFields) :
    bigIntegerFactory ⟨bigIntegerInfo.path, ["bytes"], [s.map .bytes], unknown⟩ =
      .ok (.bigInteger (TwosComplement.decode (s.getD []))) := by
  cases s <;> rfl

section

variable (hm : m.MadeOf env resolve bigIntegerInfo described)
include hm

theorem plans_eq : m.plans = [plan] := by
  have hplans := hm.forall₂_plans
  rw [hasFieldsOnly_described.leaves_eq] at hplans
  obtain ⟨p, rest, hp, hrest, hall⟩ := List.forall₂_cons_left_iff.1 hplans
  rw [hall, List.forall₂_nil_left_iff.1 hrest,
    Plan.eq_ofScalar hp (fun f b hf ↦ Member.toField_single hf) rfl]
  rfl

theorem isPlain : m.IsPlain := by
  intro p hp
  rw [plans_eq hm] at hp
  rw [List.mem_singleton.1 hp]
  exact Plan.isPlain_single ..

theorem takes_iff {r : Record} : m.Takes r ↔ (r.number = 1 → ∃ s, r.payload = .bytes s) := by
  have hplan : m.plans[0]? = some plan := by rw [plans_eq hm, List.getElem?_cons_zero]
  have hvalue : (∃ v, plan.element.valueOf? r.payload = some v) ↔ ∃ s, r.payload = .bytes s := by
    constructor
    · rintro ⟨v, hv⟩
      cases hpayload : r.payload with
      | bytes s => exact ⟨s, rfl⟩
      | _ =>
        rw [hpayload] at hv
        cases hv
    · rintro ⟨s, hs⟩
      exact ⟨.bytes s, by rw [hs]; rfl⟩
  constructor
  · intro h hnumber
    have htakes := h 0 plan (hnumber ▸ MessageMarshaller.plan?_of_getElem? hm.wellFormed.numbers
      hplan)
    exact hvalue.1 htakes
  · intro h k p hp
    obtain ⟨hk, hnumber⟩ := MessageMarshaller.plan?_eq_some hp
    have hmem := List.mem_of_getElem? hk
    rw [plans_eq hm] at hmem
    obtain rfl := List.mem_singleton.1 hmem
    exact hvalue.2 (h hnumber.symm)

theorem decode_of_readAll (hreg : reg.messageMarshaller? .bigInteger = some m)
    (hread : ∃ effects,
      (readAll (m.readRecord reg (reg.nestedAt nestingLimit)) input).result = .ok effects) :
    (reg.decode .bigInteger input).result =
      .ok (.bigInteger (TwosComplement.denoted (bytesOf input))) := by
  obtain ⟨effects, hread⟩ := hread
  obtain ⟨hand, unknown, hhands, hdecode⟩ :=
    hm.exists_values hasFieldsOnly_described (isPlain hm) hread
  have hsingle := hhands.single plan (by rw [plans_eq hm]; exact List.mem_singleton_self _) rfl
  have hvalue : (fun r : Record ↦ plan.element.valueOf? r.payload) =
      fun r ↦ (bytesIn? r).map Value.bytes := by
    funext r
    rw [bytesIn?]
    cases r.payload <;> rfl
  have hslot : hand [0] = ((lastOf? 1 (recordsOf input)).bind bytesIn?).map Value.bytes := by
    rw [Option.map_bind]
    exact hsingle.trans (congrArg _ hvalue)
  have hinstance : (reg.decodeAt nestingLimit m input).result =
      .ok (.bigInteger (TwosComplement.denoted (bytesOf input))) := by
    rw [hdecode, bytesOf, ← TwosComplement.decode_eq_denoted, ← mapError_ok,
      ← factory_eq ((lastOf? 1 (recordsOf input)).bind bytesIn?) unknown, ← hslot]
    rfl
  exact (Registry.decode_eq_ok hreg).2 ⟨hinstance, rfl⟩

end

/-- **What is read.** -/
theorem decode_of_readable (h : reg.Adapts bigIntegerInfo) (hinput : Readable input) :
    (reg.decode .bigInteger input).result =
      .ok (.bigInteger (TwosComplement.denoted (bytesOf input))) := by
  obtain ⟨m, env, resolve, hreg, hm⟩ := h.exists_madeOf rfl
  exact decode_of_readAll hm hreg (((isPlain hm).readAll_iff hm.wellFormed).2
    ⟨hinput.complete, fun r hr ↦ (takes_iff hm).2 (hinput.bytes r hr)⟩)

/-! ## Canonical messages

A message that is nothing but its bytes is readable, and it is the one that is written of the
integer that it denotes. -/

theorem readable_of_decode (h : reg.Adapts bigIntegerInfo)
    (hinput : ∀ w, (reg.decode .bigInteger input).result ≠ .error (.wire w)) : Readable input := by
  obtain ⟨m, env, resolve, hreg, hm⟩ := h.exists_madeOf rfl
  obtain ⟨hcomplete, htakes⟩ := ((isPlain hm).readAll_iff hm.wellFormed).1
    ((isPlain hm).exists_readAll_of_decode hreg hinput)
  exact ⟨hcomplete, fun r hr ↦ (takes_iff hm).1 (htakes r hr)⟩

theorem readable_encode {s : Bytes} (hs : s.length < UInt64.size) :
    Readable (Record.encode ⟨1, .bytes s⟩) ∧ bytesOf (Record.encode ⟨1, .bytes s⟩) = s := by
  have hframe := yields_writeLengthDelimited hs []
  rw [List.append_nil] at hframe
  have hvalid : Tag.IsValid ⟨1, .lengthDelimited⟩ := ⟨Nat.le_refl 1, by decide⟩
  have hrecord : Record.decode (Record.encode ⟨1, .bytes s⟩) = .ok (⟨1, .bytes s⟩, []) :=
    Record.decode_eq_ok.2 ⟨⟨1, .lengthDelimited⟩, writeLengthDelimited s,
      Tag.yields_encode hvalid _, rfl, Payload.decode_of_frame hframe⟩
  have hrecords : recordsOf (Record.encode ⟨1, .bytes s⟩) = [⟨1, .bytes s⟩] := by
    rw [recordsOf_step hrecord, recordsOf_nil]
  refine ⟨⟨?_, fun r hr _ ↦ ?_⟩, ?_⟩
  · rw [hrecords]
    exact .cons hrecord .nil
  · rw [hrecords] at hr
    exact ⟨s, by rw [List.mem_singleton.1 hr]⟩
  · rw [bytesOf, hrecords]
    rfl

/-- **What is written.** -/
theorem encode_eq (h : reg.Adapts bigIntegerInfo) (n : Int) :
    reg.encode (.bigInteger n) = .ok (message n) := by
  obtain ⟨m, env, resolve, hreg, hm⟩ := h.exists_madeOf rfl
  have hread : m.layout.get? (.bigInteger n) [0] = some (.bytes (TwosComplement.encode n)) :=
    hm.get?_eq hasFieldsOnly_described (k := 0) rfl _
  have hzero : (Value.bytes (TwosComplement.encode n)).isZero = false :=
    List.isEmpty_eq_false_iff.2 (TwosComplement.encode_ne_nil n)
  rw [hm.encode_eq hasFieldsOnly_described rfl hreg rfl, plans_eq hm, MessageMarshaller.writeAll,
    plan, MessageMarshaller.writePlan_single hread rfl, hzero, ok_bind]
  exact congrArg Except.ok (List.append_nil _)

/-- **Integers of any size.** A registry that adapts integers writes each of them as its canonical
message, whose bytes are the shortest that denote it, and reads it back. It reads all other messages
as well, as the integer that the last bytes denote, be they empty or missing, and what it writes of
that integer is the canonical message again. -/
theorem adapted_faithful (h : reg.Adapts bigIntegerInfo) :
    (∀ n, reg.encode (.bigInteger n) = .ok (message n) ∧
      TwosComplement.IsShortest (TwosComplement.encode n) n ∧
      ((TwosComplement.encode n).length < UInt64.size →
        (reg.decode .bigInteger (message n)).result = .ok (.bigInteger n))) ∧
    TwosComplement.encode 0 = [0] ∧
    (∀ s : Bytes, s.length < UInt64.size →
      (reg.decode .bigInteger (Record.encode ⟨1, .bytes s⟩)).result =
        .ok (.bigInteger (TwosComplement.denoted s))) ∧
    TwosComplement.denoted [] = 0 ∧
    (∀ input, Readable input → (reg.decode .bigInteger input).result =
      .ok (.bigInteger (TwosComplement.denoted (bytesOf input)))) ∧
    (∀ input, Readable input → (∀ r ∈ recordsOf input, r.number ≠ 1) →
      (reg.decode .bigInteger input).result = .ok (.bigInteger 0)) ∧
    ∀ input i, (reg.decode .bigInteger input).result = .ok i → Readable input ∧
      i = .bigInteger (TwosComplement.denoted (bytesOf input)) ∧
      reg.encode i = .ok (message (TwosComplement.denoted (bytesOf input))) := by
  have hsingle : ∀ s : Bytes, s.length < UInt64.size →
      (reg.decode .bigInteger (Record.encode ⟨1, .bytes s⟩)).result =
        .ok (.bigInteger (TwosComplement.denoted s)) := by
    intro s hs
    obtain ⟨hreadable, hbytes⟩ := readable_encode hs
    rw [decode_of_readable h hreadable, hbytes]
  refine ⟨fun n ↦ ⟨encode_eq h n, TwosComplement.isShortest_encode n, fun hn ↦ ?_⟩, ?_, hsingle, ?_,
    fun input ↦ decode_of_readable h, fun input hinput hmissing ↦ ?_, fun input i hi ↦ ?_⟩
  · rw [message, hsingle _ hn, (TwosComplement.isShortest_encode n).denotes]
  · rw [TwosComplement.encode_of_byte (by decide)]
    rfl
  · rfl
  · have hnone : lastOf? 1 (recordsOf input) = none := by
      rw [lastOf?, List.filter_eq_nil_iff.2 fun r hr ↦ by simpa using hmissing r hr]
      rfl
    rw [decode_of_readable h hinput, bytesOf, hnone]
    rfl
  · have hinput : Readable input := readable_of_decode h fun w hw ↦ by cases hi.symm.trans hw
    cases hi.symm.trans (decode_of_readable h hinput)
    exact ⟨hinput, rfl, encode_eq h _⟩

/-- A registry with integers of any size and nothing else. -/
def registry : Registry :=
  CompilationUnit.registry { fileName := "integer.proto", requested := [.adapted .bigInteger] } []

theorem adapts_registry : registry.Adapts bigIntegerInfo := by
  have hmem : bigIntegerInfo ∈ builtinAdapters := by simp [builtinAdapters]
  exact CompilationUnit.adapts (fun i hi ↦ eq_of_builtinAdapters hi hmem) (by decide +kernel)

/-- The bytes of five, and behind them those of -129, with one byte more than it takes. -/
def padded : Bytes := [0x0A, 0x01, 0x05] ++ [0x0A, 0x03, 0xFF, 0xFF, 0x7F]

theorem recordsOf_padded : Records padded (recordsOf padded) ∧
    recordsOf padded = [⟨1, .bytes [0x05]⟩, ⟨1, .bytes [0xFF, 0xFF, 0x7F]⟩] := by
  have hrecords : Records padded [⟨1, .bytes [0x05]⟩, ⟨1, .bytes [0xFF, 0xFF, 0x7F]⟩] :=
    .cons rfl (.cons rfl .nil)
  have hsplit : recordsOf padded = _ := (records_iff.1 hrecords).2
  exact ⟨hsplit ▸ hrecords, hsplit⟩

theorem readable_padded : Readable padded := by
  obtain ⟨hcomplete, hrecords⟩ := recordsOf_padded
  refine ⟨hcomplete, fun r hr _ ↦ ?_⟩
  rw [hrecords] at hr
  simp only [List.mem_cons, List.not_mem_nil, or_false] at hr
  rcases hr with rfl | rfl <;> exact ⟨_, rfl⟩

/-- The last bytes are read, and the integer is written with two. -/
theorem adapted_faithful_padded : registry.Adapts bigIntegerInfo ∧
    (registry.decode .bigInteger padded).result = .ok (.bigInteger (-129)) ∧
    registry.encode (.bigInteger (-129)) = .ok [0x0A, 0x02, 0xFF, 0x7F] := by
  obtain ⟨hencode, -, -, -, hdecode, -⟩ := adapted_faithful adapts_registry
  have hbytes : bytesOf padded = [0xFF, 0xFF, 0x7F] := by
    rw [bytesOf, recordsOf_padded.2]
    rfl
  have hdenoted : TwosComplement.denoted [0xFF, 0xFF, 0x7F] = -129 := by decide
  have hshortest : TwosComplement.encode (-129) = [0xFF, 0x7F] := by
    rw [TwosComplement.encode_of_wide (by decide), TwosComplement.encode_of_byte (by decide)]
    rfl
  have hmessage : Record.encode ⟨1, .bytes [0xFF, 0x7F]⟩ = [0x0A, 0x02, 0xFF, 0x7F] := by
    decide +kernel
  refine ⟨adapts_registry, ?_, ?_⟩
  · rw [hdecode padded readable_padded, hbytes, hdenoted]
  · rw [(hencode (-129)).1, message, hshortest, hmessage]

end BigInteger

end ProtoSchema
