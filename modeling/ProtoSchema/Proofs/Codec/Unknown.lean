import ProtoSchema.Proofs.Codec.Decoding
import ProtoSchema.Proofs.Codec.Inversion
import ProtoSchema.Proofs.Codec.RoundTrip
import ProtoSchema.Proofs.Codec.Storing
import ProtoSchema.Proofs.Wire.Unknown

/-!
# Unknown fields are kept exactly

What an input leaves among the unknown fields can be said without reading a single field of it: the
input is cut into records, and of each record it is said which pieces of it are kept. A record is
kept as it came if its number is not declared, if it holds a number that its closed enum does not
declare, or if it is a map entry that holds such a number; of a packed run the undeclared numbers
are kept, each as a record of its own.

Reading comes to the same. A step that reads a field of a record reads its payload, however the
field makes a value of it, so it leaves what cutting leaves; and it rejects a number exactly if
`Plan.rejected?` says so. The reader of a map entry stops at the first rejected number, and what
stands behind it need not even be records.
-/

set_option autoImplicit false

namespace ProtoSchema

open Wire

/-! ## What is kept

Every definition here goes by the bytes of records and by what fields declare. Nothing is read, so
the slots of the message do not occur. -/

/-- The number that a payload of a field stands for, if the field is one of a closed enum that does
not declare it. -/
def Plan.rejected? (p : Plan) (reg : Registry) : Payload → Option Int32
  | .varint w =>
    match p.element with
    | .enum target false =>
      (reg.enumMarshaller? target).bind fun e ↦
        if e.isKnown w.toUInt32.toInt32 then none else some w.toUInt32.toInt32
    | _ => none
  | _ => none

/-- The record that keeps an undeclared number of a packed run, extended to 64 bits by its sign. -/
def keptNumber (number : Nat) (n : Int32) : Bytes × Record :=
  let w := n.toInt64.toUInt64
  (UnknownFields.varintRecord number w, ⟨number, .varint w⟩)

/-- What is kept of a record of a declared field. -/
def Plan.kept (p : Plan) (reg : Registry) (piece : Bytes × Record) : List (Bytes × Record) :=
  match p.field.cardinality, piece.2.payload with
  | .map, .bytes frame =>
    let spoiled := (split Record.decode frame).any fun part ↦
      part.2.number == 2 && (p.rejected? reg part.2.payload).isSome
    if spoiled then [piece] else []
  | .repeated, .bytes run =>
    (split Varint.decode run).filterMap fun word ↦
      (p.rejected? reg (.varint word.2)).map (keptNumber p.field.number)
  | _, payload => if (p.rejected? reg payload).isSome then [piece] else []

/-- What is kept of a record. -/
def MessageMarshaller.kept (m : MessageMarshaller) (reg : Registry) (piece : Bytes × Record) :
    List (Bytes × Record) :=
  match m.plan? piece.2.number with
  | none => [piece]
  | some (_, p) => p.kept reg piece

/-- What is kept of an input, in the order of its records. -/
def MessageMarshaller.keptOf (m : MessageMarshaller) (reg : Registry) (input : Bytes) :
    List (Bytes × Record) :=
  (split Record.decode input).flatMap (m.kept reg)

variable {reg : Registry} {nested : NestedReader} {p : Plan} {m : MessageMarshaller}

/-! ## Readers of fields read payloads

A reader of an element makes a value of a payload, or of its number one that is rejected. What it
leaves of the input is what is left of it behind the payload. -/

/-- The number that a reading rejects. -/
def Reading.rejected? : Reading → Option Int32
  | accepted _ => none
  | rejected n => some n

theorem Plan.rejected?_eq_none (h : p.element.wireType ≠ .varint) (payload : Payload) :
    p.rejected? reg payload = none := by
  cases payload with
  | varint w =>
    cases he : p.element with
    | enum target isOpen =>
      rw [he] at h
      exact absurd rfl h
    | _ => simp only [rejected?, he]
  | _ => rfl

theorem exists_payload_of_readElement {input rest : Bytes} {reading : Reading}
    (h : (readElement reg nested p input).result = .ok (reading, rest)) :
    ∃ payload, Payload.decode p.element.wireType input = .ok (payload, rest) ∧
      p.rejected? reg payload = reading.rejected? := by
  have hread := readElement_eq_ok h
  cases he : p.element with
  | scalar s =>
    rw [he] at hread
    cases hread with
    | scalar hread =>
      obtain ⟨-, payload, hpayload⟩ := Scalar.exists_payload_of_read hread
      refine ⟨payload, hpayload, ?_⟩
      cases payload <;> simp only [Plan.rejected?, he, Reading.rejected?]
  | enum target isOpen =>
    rw [he] at hread
    cases hread with
    | openEnum hword =>
      refine ⟨_, Payload.decode_of_word hword, ?_⟩
      simp only [Plan.rejected?, he, Reading.rejected?]
    | closedEnum hword hmarshaller hknown =>
      refine ⟨_, Payload.decode_of_word hword, ?_⟩
      simp only [Plan.rejected?, he, hmarshaller, Option.bind_some, if_pos hknown,
        Reading.rejected?]
    | rejected hword hmarshaller hunknown =>
      refine ⟨_, Payload.decode_of_word hword, ?_⟩
      simp only [Plan.rejected?, he, hmarshaller, Option.bind_some, if_neg hunknown,
        Reading.rejected?]
  | message target =>
    rw [he] at hread
    cases hread with
    | message hframe _ _ => exact ⟨_, Payload.decode_of_frame hframe, rfl⟩

theorem rejectedRecords_eq {number : Nat} {run : Bytes} {readings : List Reading}
    (h : (readAll (readElement reg nested p) run).result = .ok readings) :
    rejectedRecords number readings = ((split Varint.decode run).filterMap fun word ↦
      (p.rejected? reg (.varint word.2)).map (keptNumber number)).flatMap (·.1) := by
  obtain ⟨trace, htrace, rfl⟩ := readAll_eq_ok.1 h
  clear h
  by_cases hw : p.element.wireType = .varint
  · induction htrace with
    | nil =>
      rw [split_nil]
      rfl
    | @cons input rest reading trace head hlt _ ih =>
      obtain ⟨payload, hpayload, hrejected⟩ := exists_payload_of_readElement head
      rw [hw] at hpayload
      obtain ⟨w, rfl, hword⟩ := Payload.decode_varint hpayload
      rw [split_step hword hlt, List.filterMap_cons, hrejected]
      cases reading with
      | accepted v => exact ih
      | rejected n => exact congrArg (UnknownFields.varintRecord number _ ++ ·) ih
    | last hne head hlt =>
      obtain ⟨payload, hpayload, -⟩ := exists_payload_of_readElement head
      exact absurd (Payload.decode_length hpayload) hlt
  · -- Nothing is rejected, whatever the run looks like as varints.
    have hnone : ∀ payload, p.rejected? reg payload = none := Plan.rejected?_eq_none hw
    have hkept : (split Varint.decode run).filterMap (fun word ↦
        (p.rejected? reg (.varint word.2)).map (keptNumber number)) = [] := by
      rw [List.filterMap_eq_nil_iff]
      intro word _
      rw [hnone, Option.map_none]
    rw [hkept, List.flatMap_nil, rejectedRecords, List.flatMap_eq_nil_iff]
    intro reading hreading
    obtain ⟨piece, hpiece, rfl⟩ := List.mem_map.1 hreading
    obtain ⟨rest, hstep⟩ := htrace.step_of_mem hpiece
    obtain ⟨payload, -, hrejected⟩ := exists_payload_of_readElement hstep
    rw [hnone] at hrejected
    cases hr : piece.2 with
    | accepted v => rfl
    | rejected n =>
      rw [hr] at hrejected
      cases hrejected

theorem exists_record_of_readEntryPiece {keyType : Scalar} {input rest : Bytes} {piece : EntryPiece}
    (h : (readEntryPiece reg nested p keyType input).result = .ok (piece, rest)) :
    ∃ r after, Record.decode input = .ok (r, after) ∧
      piece.isRejected = (r.number == 2 && (p.rejected? reg r.payload).isSome) ∧
      (rest = after ∨ piece.isRejected = true ∧ rest = []) := by
  obtain ⟨tag, afterTag, ht, hread⟩ := readEntryPiece_eq_ok h
  have hrecord : ∀ {w : WireType} {payload : Payload} {after : Bytes}, tag.wireType = w →
      Payload.decode w afterTag = .ok (payload, after) →
      Record.decode input = .ok (⟨tag.number, payload⟩, after) := by
    intro w payload after hw hpayload
    exact Record.decode_eq_ok.2 ⟨tag, afterTag, ht, rfl, by rw [hw, hpayload]⟩
  cases hread with
  | key hkey hw hread =>
    obtain ⟨-, payload, hpayload⟩ := Scalar.exists_payload_of_read hread
    refine ⟨_, _, hrecord hw hpayload, ?_, .inl rfl⟩
    rw [hkey]
    rfl
  | value hvalue hw hread =>
    obtain ⟨payload, hpayload, hrejected⟩ := exists_payload_of_readElement hread
    refine ⟨_, _, hrecord hw hpayload, ?_, .inl rfl⟩
    rw [hvalue, hrejected]
    rfl
  | rejected hvalue hw hread =>
    obtain ⟨payload, hpayload, hrejected⟩ := exists_payload_of_readElement hread
    refine ⟨_, _, hrecord hw hpayload, ?_, .inr ⟨rfl, rfl⟩⟩
    rw [hvalue, hrejected]
    rfl
  | other _ hvalue hpayload =>
    refine ⟨_, _, hrecord rfl hpayload, ?_, .inl rfl⟩
    rw [beq_eq_false_iff_ne.2 hvalue]
    rfl

theorem any_isRejected_eq {keyType : Scalar} {frame : Bytes} {pieces : List EntryPiece}
    (h : (readAll (readEntryPiece reg nested p keyType) frame).result = .ok pieces) :
    pieces.any EntryPiece.isRejected = (split Record.decode frame).any fun part ↦
      part.2.number == 2 && (p.rejected? reg part.2.payload).isSome := by
  obtain ⟨trace, htrace, rfl⟩ := readAll_eq_ok.1 h
  clear h
  induction htrace with
  | nil =>
    rw [split_nil]
    rfl
  | @cons input rest piece trace head _ _ ih =>
    obtain ⟨r, after, hrecord, hpiece, hrest⟩ := exists_record_of_readEntryPiece head
    rw [split_step hrecord (Record.decode_length hrecord), List.map_cons, List.any_cons,
      List.any_cons, hpiece]
    rcases hrest with rfl | ⟨hrejected, -⟩
    · rw [ih]
    · rw [← hpiece, hrejected, Bool.true_or, Bool.true_or]
  | @last input rest piece hne head hlt =>
    obtain ⟨r, after, hrecord, -, rfl | ⟨-, rfl⟩⟩ := exists_record_of_readEntryPiece head
    · exact absurd (Record.decode_length hrecord) hlt
    · exact absurd (List.length_pos_iff.2 hne) hlt

/-! ## Readers of records keep what is said

Readings are taken apart by the shape of the field: a map entry is kept as a whole, a packed run
number by number, and any other record as it came. -/

theorem Plan.kept_of_readElement (hc : p.field.cardinality ≠ .map) {tag : Tag}
    (hw : tag.wireType = p.element.wireType) {afterTag rest : Bytes} {reading : Reading}
    (h : (readElement reg nested p afterTag).result = .ok (reading, rest)) (chunk : Bytes) :
    ∃ payload, Payload.decode tag.wireType afterTag = .ok (payload, rest) ∧
      (p.kept reg (chunk, ⟨tag.number, payload⟩)).flatMap (·.1) =
        match reading with
        | .accepted _ => []
        | .rejected _ => chunk := by
  obtain ⟨payload, hpayload, hrejected⟩ := exists_payload_of_readElement h
  have hkept : p.kept reg (chunk, ⟨tag.number, payload⟩) =
      if (p.rejected? reg payload).isSome then [(chunk, ⟨tag.number, payload⟩)] else [] := by
    unfold kept
    split
    · next hmap _ => exact absurd hmap hc
    · next run _ hrun =>
      -- Elements that are runs of bytes are no numbers, so the run is not cut at all.
      have hnone : ∀ payload, p.rejected? reg payload = none := by
        refine rejected?_eq_none ?_
        rw [← Payload.wireType_of_decode hpayload, show payload = .bytes run from hrun]
        exact fun h ↦ WireType.noConfusion h
      simp only [hnone, Option.map_none, Option.isSome_none, List.filterMap_none,
        if_neg Bool.false_ne_true]
    · rfl
  refine ⟨payload, hw ▸ hpayload, ?_⟩
  rw [hkept, hrejected]
  cases reading with
  | accepted v => rfl
  | rejected n => exact List.append_nil chunk

section

variable {tag : Tag} {input afterTag rest : Bytes} {e : Effect} {index : Nat}

theorem Plan.ReadsRecordAs.kept
    (h : p.ReadsRecordAs reg nested index tag input afterTag rest e) :
    ∃ payload, Payload.decode tag.wireType afterTag = .ok (payload, rest) ∧
      e.retained = (p.kept reg (consumed input rest, ⟨tag.number, payload⟩)).flatMap (·.1) := by
  cases h with
  | entry hc hw hframe hentry =>
    obtain ⟨pieces, hpieces, hrejected, -⟩ := readEntry_eq_ok hentry
    rw [any_isRejected_eq hpieces] at hrejected
    refine ⟨_, hw ▸ Payload.decode_of_frame hframe, ?_⟩
    simp only [Plan.kept, hc, ← hrejected, Option.isNone_some, if_neg Bool.false_ne_true,
      List.flatMap_nil]
  | spoiledEntry hc hw hframe hentry =>
    obtain ⟨pieces, hpieces, hrejected, -⟩ := readEntry_eq_ok hentry
    rw [any_isRejected_eq hpieces] at hrejected
    refine ⟨_, hw ▸ Payload.decode_of_frame hframe, ?_⟩
    simp only [Plan.kept, hc, ← hrejected, Option.isNone_none, if_pos, List.flatMap_cons,
      List.flatMap_nil, List.append_nil]
  | packed hc hw _ hframe hreadings =>
    refine ⟨_, hw ▸ Payload.decode_of_frame hframe, ?_⟩
    simp only [Plan.kept, hc]
    exact rejectedRecords_eq hreadings
  | element hc hw hread =>
    obtain ⟨payload, hpayload, hkept⟩ :=
      p.kept_of_readElement (by rw [hc]; decide) hw hread (consumed input rest)
    exact ⟨payload, hpayload, hkept.symm⟩
  | single hc hw hread =>
    obtain ⟨payload, hpayload, hkept⟩ := p.kept_of_readElement
      (by rcases hc with hc | hc <;> rw [hc] <;> decide) hw hread (consumed input rest)
    exact ⟨payload, hpayload, hkept.symm⟩
  | rejected hc hw hread =>
    obtain ⟨payload, hpayload, hkept⟩ := p.kept_of_readElement hc hw hread (consumed input rest)
    exact ⟨payload, hpayload, hkept.symm⟩

/-- **What a record leaves.** Reading a record of a message cuts a record off the input and retains
what is kept of it. -/
theorem kept_of_readRecord (h : (m.readRecord reg nested input).result = .ok (e, rest)) :
    ∃ r, Record.decode input = .ok (r, rest) ∧
      e.retained = (m.kept reg (consumed input rest, r)).flatMap (·.1) := by
  obtain ⟨tag, afterTag, ht, ⟨hplan, rfl, payload, hpayload⟩ | ⟨i, p, hplan, hread⟩⟩ :=
    MessageMarshaller.readRecord_eq_ok h
  · refine ⟨⟨tag.number, payload⟩,
      Record.decode_eq_ok.2 ⟨tag, afterTag, ht, rfl, hpayload⟩, ?_⟩
    simp only [MessageMarshaller.kept, hplan, List.flatMap_cons, List.flatMap_nil, List.append_nil]
  · obtain ⟨payload, hpayload, hkept⟩ := hread.kept
    refine ⟨⟨tag.number, payload⟩,
      Record.decode_eq_ok.2 ⟨tag, afterTag, ht, rfl, hpayload⟩, ?_⟩
    simp only [MessageMarshaller.kept, hplan, hkept]

theorem keptOf_of_readTrace {records : List (Bytes × Effect)}
    (h : ReadTrace (m.readRecord reg nested) input records) :
    (split Record.decode input).flatMap (·.1) = input ∧
      (records.map (·.2)).flatMap (·.retained) = (m.keptOf reg input).flatMap (·.1) := by
  induction h with
  | nil =>
    rw [MessageMarshaller.keptOf, split_nil]
    exact ⟨rfl, rfl⟩
  | @cons input rest e records head hlt _ ih =>
    obtain ⟨r, hrecord, hkept⟩ := kept_of_readRecord head
    have hcut : split Record.decode input
        = (consumed input rest, r) :: split Record.decode rest := split_step hrecord hlt
    obtain ⟨hinput, hretained⟩ := ih
    refine ⟨?_, ?_⟩
    · rw [hcut, List.flatMap_cons, hinput]
      exact ((Record.local_decode.yields hrecord).1).symm
    · rw [List.map_cons, List.flatMap_cons, hretained, hkept, MessageMarshaller.keptOf,
        MessageMarshaller.keptOf, hcut, List.flatMap_cons, List.flatMap_append]
  | last _ head hlt =>
    obtain ⟨r, hrecord, -⟩ := kept_of_readRecord head
    exact absurd (Record.decode_length hrecord) hlt

end

/-- Whatever is kept is a complete record, wherever it stands. -/
theorem MessageMarshaller.WellFormed.yields_of_mem_keptOf (hm : m.WellFormed) {input : Bytes}
    {piece : Bytes × Record} (h : piece ∈ m.keptOf reg input) :
    Yields Record.decode piece.1 piece.2 := by
  obtain ⟨record, hrecord, hpiece⟩ := List.mem_flatMap.1 h
  have hwhole := Record.local_decode.yields_of_mem_split hrecord
  have hself : ∀ c : Prop, ∀ _ : Decidable c, piece ∈ (if c then [record] else []) →
      Yields Record.decode piece.1 piece.2 := by
    intro c _ hpiece
    split at hpiece
    · rwa [List.mem_singleton.1 hpiece]
    · cases hpiece
  unfold kept at hpiece
  split at hpiece
  · rwa [List.mem_singleton.1 hpiece]
  · next i p hplan =>
    have hvalid := hm.plans p (List.mem_of_getElem? (plan?_eq_some hplan).1)
    unfold Plan.kept at hpiece
    split at hpiece
    · exact hself _ _ hpiece
    · obtain ⟨word, -, hnumber⟩ := List.mem_filterMap.1 hpiece
      obtain ⟨n, -, rfl⟩ := Option.map_eq_some_iff.1 hnumber
      exact UnknownFields.yields_varintRecord hvalid.number _
    · exact hself _ _ hpiece

/-! ## Types that keep unknown fields -/

/-- The factory keeps the unknown fields that it is handed, and instances lend them again. -/
def MessageMarshaller.KeepsUnknown (m : MessageMarshaller) : Prop :=
  ∃ lend, m.layout.unknown = some lend ∧
    ∀ values i, m.layout.factory values = .ok i → lend i = some values.unknown

theorem MessageMarshaller.KeepsUnknown.of_storing {names : List String}
    (h : m.layout = .storing m.type names) : m.KeepsUnknown := by
  refine ⟨unknownOfRecord m.type, by rw [h]; rfl, fun values i hi ↦ ?_⟩
  rw [h] at hi
  obtain rfl := Except.ok.inj hi
  exact if_pos rfl

/-- **Unknown fields are kept exactly.** What a message that a compiled type decodes retains is what
is kept of the records of the input, in their order: each piece a complete record, with one tag for
each piece. Writing the message writes these bytes behind its fields. -/
theorem unknown_of_decodeAt (hm : m.Compiled) (hkeeps : m.KeepsUnknown) {levels : Nat}
    {input : Bytes} {i : Instance} (h : (reg.decodeAt levels m input).result = .ok i) :
    m.plans.map (·.field) = m.descriptor.fields ∧
      (split Record.decode input).flatMap (·.1) = input ∧
      (m.layout.unknown.bind fun lend ↦ lend i) = some ⟨(m.keptOf reg input).flatMap (·.1)⟩ ∧
      (m.retained i).tags = (m.keptOf reg input).map (·.2.tag) ∧
      (∀ piece ∈ m.keptOf reg input, Record.decode piece.1 = .ok (piece.2, [])) ∧
      (i.type = m.type → reg.write m i =
        (MessageMarshaller.writeAll (m.writePlan reg (reg.writeBelow i) i) m.plans).map
          (· ++ (m.keptOf reg input).flatMap (·.1))) := by
  obtain ⟨env, resolve, info, message, hmade⟩ := hm.exists_madeOf
  obtain ⟨lend, hlend, hfactory⟩ := hkeeps
  rw [Registry.decodeAt_eq] at h
  obtain ⟨records, hand, hdecodes⟩ := MessageMarshaller.decodeWith_eq_ok.1 h
  obtain ⟨hinput, hretained⟩ := keptOf_of_readTrace hdecodes.reads
  obtain ⟨slots, -, hbuild⟩ := Layout.factory_of_assemble hdecodes.builds
  have hlent : (m.layout.unknown.bind fun lend ↦ lend i) =
      some ⟨(m.keptOf reg input).flatMap (·.1)⟩ := by
    rw [hlend, Option.bind_some, hfactory _ i hbuild, hretained]
  have hset : m.retained i = ⟨(m.keptOf reg input).flatMap (·.1)⟩ := by
    rw [MessageMarshaller.retained, hlent]
    rfl
  have hpieces : ∀ piece ∈ m.keptOf reg input, Yields Record.decode piece.1 piece.2 :=
    fun piece hpiece ↦ hm.wellFormed.yields_of_mem_keptOf hpiece
  refine ⟨hmade.fields, hinput, hlent, ?_, fun piece hpiece ↦ ?_, fun htype ↦ ?_⟩
  · rw [hset, UnknownFields.tags]
    exact UnknownFields.tagsOf_flatMap hpieces
  · have hpiece := hpieces piece hpiece []
    rwa [List.append_nil] at hpiece
  · rw [Registry.write_eq, MessageMarshaller.encodeWith, if_pos htype, hset]
    cases MessageMarshaller.writeAll (m.writePlan reg (reg.writeBelow i) i) m.plans <;> rfl

namespace Meter

def level : TypeId := ⟨"meter::Level"⟩

def log : TypeId := ⟨"meter::Log"⟩

/-- A closed enum in a single field, a list and a map. -/
def logInfo : TypeInfo :=
  .storing log
    [({ name := "level", kind := .field (.enum (.of level) false), getter := ·
        number := some 1 }),
      ({ name := "history", kind := .field (.repeated (.enum (.of level) false)), getter := ·
         number := some 2 }),
      ({ name := "sensors", kind := .field (.map (.scalar .int32) (.enum (.of level) false))
         getter := ·, number := some 3 })]

def environment : Environment :=
  [{ type := level, path := level.name
     kind := .enum [{ name := "Low", number := 1 }, { name := "High", number := 2 }] }, logInfo]

def registry : Registry :=
  CompilationUnit.registry { fileName := "meter.proto", requested := [.of log] } environment

theorem exists_log :
    ∃ m, registry.messageMarshaller? log = some m ∧ m.Compiled ∧ m.KeepsUnknown := by
  obtain ⟨m, hm⟩ : ∃ m, registry.messageMarshaller? log = some m :=
    Option.isSome_iff_exists.1 (by decide +kernel)
  obtain ⟨m', hm', htype, -, hlayout⟩ :=
    CompilationUnit.exists_marshaller logInfo (by decide +kernel) (.tail _ (.head _))
      (show (registry.messageMarshaller? log).map (·.plans) = some m.plans by rw [hm]; rfl)
      (show ∀ message, logInfo.message? = some message →
        Layout.ofInfo environment logInfo message
          = .ok (.storing log ["level", "history", "sensors"]) by rintro message ⟨⟩; cbv)
  obtain rfl := Option.some.inj (hm.symm.trans hm')
  rw [show log = m.type from htype.symm] at hlayout
  exact ⟨m, hm, (CompilationUnit.compiled_registry _ _).marshaller hm, .of_storing hlayout⟩

/-- A record of an undeclared number, undeclared levels in each of the fields among declared ones,
and a map entry behind whose level no record stands. -/
def input : Bytes :=
  [0x48, 0x81, 0x00] ++ [0x08, 0x07] ++ [0x08, 0x02] ++ [0x10, 0x05] ++
    [0x12, 0x07, 0x01, 0x03, 0xFF, 0xFF, 0xFF, 0xFF, 0x0F] ++
    [0x1A, 0x05, 0x08, 0x07, 0x10, 0x09, 0xFF]

end Meter

/-- The law for an input with records of all kinds. -/
theorem Meter.unknown_of_decodeAt_input : ∃ m i, registry.messageMarshaller? log = some m ∧
    m.Compiled ∧ m.KeepsUnknown ∧ (registry.decodeAt nestingLimit m input).result = .ok i ∧
    (m.retained i).bytes = [0x48, 0x81, 0x00] ++ [0x08, 0x07] ++ [0x10, 0x05] ++ [0x10, 0x03] ++
      [0x10, 0xFF, 0xFF, 0xFF, 0xFF, 0xFF, 0xFF, 0xFF, 0xFF, 0xFF, 0x01] ++
      [0x1A, 0x05, 0x08, 0x07, 0x10, 0x09, 0xFF] ∧
    (m.retained i).tags =
      [⟨9, .varint⟩, ⟨1, .varint⟩, ⟨2, .varint⟩, ⟨2, .varint⟩, ⟨2, .varint⟩,
        ⟨3, .lengthDelimited⟩] := by
  obtain ⟨m, hm, hcompiled, hkeeps⟩ := exists_log
  have hall : (registry.messageMarshaller? log).map (fun m ↦
      ((registry.decodeAt nestingLimit m input).result.toOption.isSome,
        (m.keptOf registry input).flatMap (·.1), (m.keptOf registry input).map (·.2.tag)))
        = some (true, [0x48, 0x81, 0x00] ++ [0x08, 0x07] ++ [0x10, 0x05] ++ [0x10, 0x03] ++
          [0x10, 0xFF, 0xFF, 0xFF, 0xFF, 0xFF, 0xFF, 0xFF, 0xFF, 0xFF, 0x01] ++
          [0x1A, 0x05, 0x08, 0x07, 0x10, 0x09, 0xFF],
          [⟨9, .varint⟩, ⟨1, .varint⟩, ⟨2, .varint⟩, ⟨2, .varint⟩, ⟨2, .varint⟩,
            ⟨3, .lengthDelimited⟩]) := by
    decide +kernel
  rw [hm, Option.map_some, Option.some.injEq, Prod.mk.injEq, Prod.mk.injEq] at hall
  obtain ⟨hdecode, hbytes, htags⟩ := hall
  obtain ⟨i, hi⟩ := Option.isSome_iff_exists.1 hdecode
  have hi := toOption_eq_some.1 hi
  obtain ⟨-, -, hlent, htagsOf, -, -⟩ := unknown_of_decodeAt hcompiled hkeeps hi
  refine ⟨m, i, hm, hcompiled, hkeeps, hi, ?_, htagsOf.trans htags⟩
  rw [MessageMarshaller.retained, hlent, ← hbytes]
  rfl

end ProtoSchema
