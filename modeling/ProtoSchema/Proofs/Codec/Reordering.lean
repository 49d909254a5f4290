import ProtoSchema.Proofs.Codec.Locality
import ProtoSchema.Proofs.Codec.Unknown

/-!
# The order of independent records

Records depend on each other if they belong to one field or to one oneof, or if both leave bytes
among the unknown fields. As long as those that do keep their order, records may come in any order,
and the message that is read is the same.

No two kinds of records have to be commuted for this. The effect of a record is the same wherever
the record stands, and each slot and the unknown fields look at some of the effects only: a slot at
those of its own field and of its oneof, the unknown fields at those that leave bytes. What is
looked at is one and the same list in both orders.
-/

set_option autoImplicit false

namespace ProtoSchema

open Wire

namespace MessageMarshaller

/-- The oneof of the field that has a number. -/
def oneofOf? (m : MessageMarshaller) (number : Nat) : Option String :=
  (m.plan? number).bind fun found ↦ found.2.field.oneof

/-- Records in another order, in which those of one field come in the same order as before, and so
do those of the members of one oneof and those that leave bytes among the unknown fields. -/
structure Reorders (m : MessageMarshaller) (reg : Registry)
    (pieces pieces' : List (Bytes × Record)) :
    Prop where
  perm : pieces'.Perm pieces
  number : ∀ n, pieces'.filter (·.2.number == n) = pieces.filter (·.2.number == n)
  oneof : ∀ g, pieces'.filter (m.oneofOf? ·.2.number == some g) =
    pieces.filter (m.oneofOf? ·.2.number == some g)
  kept : pieces'.filter (fun piece ↦ !(m.kept reg piece).isEmpty) =
    pieces.filter fun piece ↦ !(m.kept reg piece).isEmpty

section

variable (m : MessageMarshaller) (reg : Registry) (nested : NestedReader)

/-- What a record does that stands alone. -/
def effectAlone (piece : Bytes × Record) : Effect :=
  match (m.readRecord reg nested piece.1).result with
  | .ok (e, _) => e
  | .error _ => {}

/-- The bytes of a piece are its record, and it does everywhere what it does alone. -/
structure Reads (piece : Bytes × Record) : Prop where
  yields : Yields (fun input ↦ (m.readRecord reg nested input).result) piece.1
    (m.effectAlone reg nested piece)
  record : Record.decode piece.1 = .ok (piece.2, [])

end

variable {m : MessageMarshaller} {reg : Registry} {nested : NestedReader} {piece : Bytes × Record}
  {pieces : List (Bytes × Record)} {input : Bytes}

/-! ## Records one by one

The effect of a record is a function of its own bytes, since a reader stops where the record ends.
An input is thus the list of its records, and any list of records that can be read is an input. -/

theorem reads_of_readRecord {rest : Bytes} {e : Effect} {r : Record}
    (h : (m.readRecord reg nested input).result = .ok (e, rest))
    (hr : Record.decode input = .ok (r, rest)) : m.Reads reg nested (consumed input rest, r) := by
  have hyields := (local_readRecord.yields h).2
  have hrecord := (Record.local_decode.yields hr).2 []
  have halone := hyields []
  rw [List.append_nil] at hrecord halone
  have heffect : m.effectAlone reg nested (consumed input rest, r) = e := by
    unfold effectAlone
    rw [show (m.readRecord reg nested (consumed input rest)).result = .ok (e, []) from halone]
  refine ⟨?_, hrecord⟩
  rw [heffect]
  exact hyields

theorem reads_of_readTrace {records : List (Bytes × Effect)}
    (h : ReadTrace (m.readRecord reg nested) input records) :
    ∀ piece ∈ split Record.decode input, m.Reads reg nested piece := by
  induction h with
  | nil => simp [split_nil]
  | @cons input rest e records head hlt _ ih =>
    obtain ⟨r, hr, -⟩ := kept_of_readRecord head
    rw [split_step hr hlt, List.forall_mem_cons]
    exact ⟨reads_of_readRecord head hr, ih⟩
  | last _ head hlt =>
    -- A record takes at least its tag, so reading never stops in front of bytes.
    obtain ⟨r, hr, -⟩ := kept_of_readRecord head
    exact absurd (Record.decode_length hr) hlt

/-- Records are read one behind the other, each as if it stood alone. -/
theorem readsAll_of_reads (h : ∀ piece ∈ pieces, m.Reads reg nested piece) :
    ReadsAll (m.readRecord reg nested) (pieces.flatMap (·.1))
      (pieces.map (m.effectAlone reg nested)) := by
  refine ReadsAll.flatMap fun piece hpiece ↦ ?_
  have hne : piece.1 ≠ [] := by
    intro hnil
    have hlt := Record.decode_length (h piece hpiece).record
    rw [hnil] at hlt
    exact absurd hlt (Nat.lt_irrefl _)
  exact .single hne (h piece hpiece).yields

theorem readAll_of_reads (h : ∀ piece ∈ pieces, m.Reads reg nested piece) :
    (readAll (m.readRecord reg nested) (pieces.flatMap (·.1))).result =
      .ok (pieces.map (m.effectAlone reg nested)) :=
  (readsAll_of_reads h).result

theorem readAll_eq_ok_iff {effects : List Effect} :
    (readAll (m.readRecord reg nested) input).result = .ok effects ↔
      (split Record.decode input).flatMap (·.1) = input ∧
        (∀ piece ∈ split Record.decode input, m.Reads reg nested piece) ∧
        effects = (split Record.decode input).map (m.effectAlone reg nested) := by
  constructor
  · intro h
    obtain ⟨records, htrace, -⟩ := readAll_eq_ok.1 h
    have hinput := (keptOf_of_readTrace htrace).1
    have hreads := reads_of_readTrace htrace
    have hall := readAll_of_reads hreads
    rw [hinput, h] at hall
    exact ⟨hinput, hreads, Except.ok.inj hall⟩
  · rintro ⟨hinput, hreads, rfl⟩
    have hall := readAll_of_reads hreads
    rwa [hinput] at hall

theorem Reads.readRecord (h : m.Reads reg nested piece) :
    (m.readRecord reg nested piece.1).result = .ok (m.effectAlone reg nested piece, []) := by
  have halone := h.yields []
  rwa [List.append_nil] at halone

theorem Reads.plan?_of_change (h : m.Reads reg nested piece) {k : Nat} {c : Change}
    (hc : (m.effectAlone reg nested piece).change = some (k, c)) :
    ∃ p, m.plan? piece.2.number = some (k, p) := by
  obtain ⟨tag, afterTag, ht, hcases⟩ := readRecord_eq_ok h.readRecord
  obtain ⟨tag', afterTag', ht', hnumber, -⟩ := Record.decode_eq_ok.1 h.record
  obtain ⟨rfl, -⟩ := Prod.mk.inj (Except.ok.inj (ht.symm.trans ht'))
  rw [← hnumber]
  rcases hcases with ⟨-, he, -⟩ | ⟨index, p, hplan, hread⟩
  · rw [he] at hc
    cases hc
  · refine ⟨p, ?_⟩
    generalize m.effectAlone reg nested piece = e at hc hread
    cases hread <;> cases hc <;> exact hplan

theorem Reads.retained (h : m.Reads reg nested piece) :
    (m.effectAlone reg nested piece).retained = (m.kept reg piece).flatMap (·.1) := by
  obtain ⟨r, hr, hretained⟩ := kept_of_readRecord h.readRecord
  obtain ⟨rfl, -⟩ := Prod.mk.inj (Except.ok.inj (hr.symm.trans h.record))
  have hall : consumed piece.1 [] = piece.1 := List.take_length
  rw [hall] at hretained
  exact hretained

/-! ## What a slot looks at

Records of other fields are left out of the list, unless they set a member of the same oneof. What
remains comes in the same order by assumption. -/

theorem Reads.slotAfter_eq (h : m.Reads reg nested piece) {k : Nat} {p : Plan}
    (hp : m.plans[k]? = some p) (hother : m.plan? piece.2.number ≠ some (k, p))
    (honeof : ∀ g, p.field.oneof = some g → m.oneofOf? piece.2.number ≠ some g)
    (slot : Option Value) :
    Draft.slotAfter m k slot (m.effectAlone reg nested piece) = slot := by
  cases hc : (m.effectAlone reg nested piece).change with
  | none => exact Draft.slotAfter_of_none hc
  | some change =>
    obtain ⟨j, c⟩ := change
    obtain ⟨q, hq⟩ := h.plan?_of_change hc
    have hget := (plan?_eq_some hq).1
    have hjk : j ≠ k := by
      rintro rfl
      obtain rfl := Option.some.inj (hp.symm.trans hget)
      exact hother hq
    refine (Draft.slotAfter_of_ne hc hjk).resolve_right ?_
    rintro ⟨-, hexclude, -⟩
    obtain ⟨q', p', g, hq', hp', hqg, hpg⟩ := Draft.exclude_eq_true.1 hexclude
    obtain rfl := Option.some.inj (hget.symm.trans hq')
    obtain rfl := Option.some.inj (hp.symm.trans hp')
    refine honeof g hpg ?_
    rw [oneofOf?, hq]
    exact hqg

theorem Reads.slotAfter_of_number (h : m.Reads reg nested piece) {k : Nat} {p : Plan}
    (hp : m.plans[k]? = some p) (honeof : p.field.oneof = none)
    (hnumber : piece.2.number ≠ p.field.number) (slot : Option Value) :
    Draft.slotAfter m k slot (m.effectAlone reg nested piece) = slot := by
  refine h.slotAfter_eq hp (fun hplan ↦ hnumber (plan?_eq_some hplan).2.symm) (fun g hg ↦ ?_) slot
  rw [honeof] at hg
  cases hg

theorem slot_filter {k : Nat} {looks : Bytes × Record → Bool}
    (h : ∀ piece ∈ pieces, looks piece = false →
      ∀ slot, Draft.slotAfter m k slot (m.effectAlone reg nested piece) = slot) :
    m.slot (pieces.map (m.effectAlone reg nested)) k =
      m.slot ((pieces.filter looks).map (m.effectAlone reg nested)) k := by
  unfold slot
  -- What the records in front have left in the slot is arbitrary.
  generalize (none : Option Value) = start
  induction pieces generalizing start with
  | nil => rfl
  | cons piece rest ih =>
    obtain ⟨hpiece, hrest⟩ := List.forall_mem_cons.1 h
    rw [List.map_cons, List.foldl_cons]
    by_cases hlooks : looks piece = true
    · rw [List.filter_cons_of_pos hlooks, List.map_cons, List.foldl_cons]
      exact ih hrest _
    · rw [List.filter_cons_of_neg hlooks, hpiece (Bool.eq_false_iff.2 hlooks)]
      exact ih hrest start

/-- **Slots do not see the order.** What independent records leave in a slot is the same in every
order. -/
theorem Reorders.slot_eq {pieces' : List (Bytes × Record)} (hre : m.Reorders reg pieces pieces')
    (h : ∀ piece ∈ pieces, m.Reads reg nested piece) {k : Nat} {p : Plan}
    (hp : m.plans[k]? = some p) :
    m.slot (pieces'.map (m.effectAlone reg nested)) k =
      m.slot (pieces.map (m.effectAlone reg nested)) k := by
  have h' : ∀ piece ∈ pieces', m.Reads reg nested piece :=
    fun piece hpiece ↦ h piece (hre.perm.subset hpiece)
  cases hg : p.field.oneof with
  | none =>
    -- Outside of oneofs only the records of the field itself count.
    have hskip : ∀ piece, m.Reads reg nested piece → (piece.2.number == p.field.number) = false →
        ∀ slot, Draft.slotAfter m k slot (m.effectAlone reg nested piece) = slot :=
      fun piece hreads hnumber ↦ hreads.slotAfter_of_number hp hg (beq_eq_false_iff_ne.1 hnumber)
    rw [slot_filter fun piece hpiece ↦ hskip piece (h' piece hpiece),
      slot_filter fun piece hpiece ↦ hskip piece (h piece hpiece), hre.number]
  | some g =>
    -- In a oneof the records of all its members count, since each of them unsets the others.
    have hskip : ∀ piece, m.Reads reg nested piece →
        (m.oneofOf? piece.2.number == some g) = false →
        ∀ slot, Draft.slotAfter m k slot (m.effectAlone reg nested piece) = slot := by
      intro piece hreads honeof
      have hne : m.oneofOf? piece.2.number ≠ some g := beq_eq_false_iff_ne.1 honeof
      refine hreads.slotAfter_eq hp (fun hplan ↦ hne ?_) fun g' hg' ↦ ?_
      · rw [oneofOf?, hplan]
        exact hg
      · rw [hg] at hg'
        cases hg'
        exact hne
    rw [slot_filter fun piece hpiece ↦ hskip piece (h' piece hpiece),
      slot_filter fun piece hpiece ↦ hskip piece (h piece hpiece), hre.oneof]

theorem handing_congr {es es' : List Effect}
    (h : ∀ k p, m.plans[k]? = some p → m.slot es' k = m.slot es k) :
    m.handing es' = m.handing es :=
  handing_congr_fill fun k p hp ↦ congrArg (m.fill p) (h k p hp)

/-! ## What the unknown fields look at -/

theorem retained_eq (h : ∀ piece ∈ pieces, m.Reads reg nested piece) :
    (pieces.map (m.effectAlone reg nested)).flatMap (·.retained) =
      (pieces.filter fun piece ↦ !(m.kept reg piece).isEmpty).flatMap
        fun piece ↦ (m.kept reg piece).flatMap (·.1) := by
  induction pieces with
  | nil => rfl
  | cons piece rest ih =>
    obtain ⟨hpiece, hrest⟩ := List.forall_mem_cons.1 h
    rw [List.map_cons, List.flatMap_cons, hpiece.retained, ih hrest]
    by_cases hkept : m.kept reg piece = []
    · rw [List.filter_cons_of_neg (by simp [hkept]), hkept, List.flatMap_nil, List.nil_append]
    · rw [List.filter_cons_of_pos (by simpa using hkept), List.flatMap_cons]

end MessageMarshaller

/-- **The order of independent records does not matter.** Whatever the message type and the
registry: an input that is decoded consists of records, and if they come in another order, in which
those of one field, of one oneof and those that leave bytes among the unknown fields keep theirs,
then the factories are handed the same member values and the same unknown fields, and the message is
the same. -/
theorem decodeAt_of_reorders {m : MessageMarshaller} {reg : Registry} {levels : Nat} {input : Bytes}
    {i : Instance} (h : (reg.decodeAt levels m input).result = .ok i)
    {pieces : List (Bytes × Record)} (hre : m.Reorders reg (split Record.decode input) pieces) :
    (split Record.decode input).flatMap (·.1) = input ∧
      (reg.decodeAt levels m (pieces.flatMap (·.1))).result = .ok i ∧
      ∃ records records' hand,
        m.Decodes reg (reg.nestedAt levels) input records hand i ∧
        m.Decodes reg (reg.nestedAt levels) (pieces.flatMap (·.1)) records' hand i ∧
        (records'.map (·.2)).flatMap (·.retained) = (records.map (·.2)).flatMap (·.retained) := by
  rw [Registry.decodeAt_eq] at h ⊢
  obtain ⟨records, hand, hdecodes⟩ := MessageMarshaller.decodeWith_eq_ok.1 h
  have hinput := (keptOf_of_readTrace hdecodes.reads).1
  have hreads := MessageMarshaller.reads_of_readTrace hdecodes.reads
  have hreads' : ∀ piece ∈ pieces, m.Reads reg (reg.nestedAt levels) piece :=
    fun piece hpiece ↦ hreads piece (hre.perm.subset hpiece)
  have heffects : records.map (·.2) =
      (split Record.decode input).map (m.effectAlone reg (reg.nestedAt levels)) := by
    have hall := MessageMarshaller.readAll_of_reads hreads
    rw [hinput, readAll_eq_ok.2 ⟨records, hdecodes.reads, rfl⟩] at hall
    exact Except.ok.inj hall
  obtain ⟨records', htrace, heffects'⟩ :=
    readAll_eq_ok.1 (MessageMarshaller.readAll_of_reads hreads')
  have hretained : (records'.map (·.2)).flatMap (·.retained) =
      (records.map (·.2)).flatMap (·.retained) := by
    rw [heffects, heffects', MessageMarshaller.retained_eq hreads,
      MessageMarshaller.retained_eq hreads', hre.kept]
  have hhands : m.handing (records'.map (·.2)) = .ok hand := by
    rw [← hdecodes.hands, heffects, heffects']
    exact MessageMarshaller.handing_congr fun k p hp ↦ hre.slot_eq hreads hp
  have hbuilds : m.layout.assemble hand [] ⟨(records'.map (·.2)).flatMap (·.retained)⟩ = .ok i := by
    rw [hretained]
    exact hdecodes.builds
  have hdecodes' : m.Decodes reg (reg.nestedAt levels) (pieces.flatMap (·.1)) records' hand i :=
    ⟨htrace, hhands, hbuilds⟩
  exact ⟨hinput, MessageMarshaller.decodeWith_eq_ok.2 ⟨records', hand, hdecodes'⟩, records,
    records',
    hand, hdecodes, hdecodes', hretained⟩

namespace Meter

/-- The records of the input up to the accepted level. -/
def front : List (Bytes × Record) :=
  [([0x48, 0x81, 0x00], ⟨9, .varint 1⟩), ([0x08, 0x07], ⟨1, .varint 7⟩)]

/-- The accepted level. -/
def high : Bytes × Record := ([0x08, 0x02], ⟨1, .varint 2⟩)

/-- The records of the input behind the accepted level. -/
def back : List (Bytes × Record) :=
  [([0x10, 0x05], ⟨2, .varint 5⟩),
    ([0x12, 0x07, 0x01, 0x03, 0xFF, 0xFF, 0xFF, 0xFF, 0x0F],
      ⟨2, .bytes [0x01, 0x03, 0xFF, 0xFF, 0xFF, 0xFF, 0x0F]⟩),
    ([0x1A, 0x05, 0x08, 0x07, 0x10, 0x09, 0xFF], ⟨3, .bytes [0x08, 0x07, 0x10, 0x09, 0xFF]⟩)]

end Meter

/-- The accepted level may as well come behind all other records. -/
theorem Meter.decodeAt_of_reorders_high : ∃ m i, registry.messageMarshaller? log = some m ∧
    (registry.decodeAt nestingLimit m input).result = .ok i ∧
    m.Reorders registry (split Record.decode input) (front ++ back ++ [high]) ∧
    (registry.decodeAt nestingLimit m
      ([0x48, 0x81, 0x00] ++ [0x08, 0x07] ++ [0x10, 0x05] ++
        [0x12, 0x07, 0x01, 0x03, 0xFF, 0xFF, 0xFF, 0xFF, 0x0F] ++
        [0x1A, 0x05, 0x08, 0x07, 0x10, 0x09, 0xFF] ++ [0x08, 0x02])).result = .ok i := by
  obtain ⟨m, hm, -⟩ := exists_log
  have hall : (registry.messageMarshaller? log).map (fun m ↦
      ((registry.decodeAt nestingLimit m input).result.toOption.isSome,
        (front ++ back ++ [high]).all fun piece ↦ (m.oneofOf? piece.2.number).isNone,
        decide ((front ++ back ++ [high]).filter (fun piece ↦ !(m.kept registry piece).isEmpty) =
          (front ++ high :: back).filter fun piece ↦ !(m.kept registry piece).isEmpty)))
        = some (true, true, true) := by
    decide +kernel
  rw [hm, Option.map_some, Option.some.injEq, Prod.mk.injEq, Prod.mk.injEq] at hall
  obtain ⟨hdecode, honeof, hkept⟩ := hall
  obtain ⟨i, hi⟩ := Option.isSome_iff_exists.1 hdecode
  have hi := toOption_eq_some.1 hi
  have hsplit : split Record.decode input = front ++ high :: back := by decide +kernel
  have hperm : (front ++ back ++ [high]).Perm (front ++ high :: back) := by
    rw [List.append_assoc]
    exact (List.perm_append_singleton high back).append_left front
  have hnone : ∀ g, ∀ piece ∈ front ++ back ++ [high],
      ¬(m.oneofOf? piece.2.number == some g) = true := by
    intro g piece hpiece
    rw [Option.isNone_iff_eq_none.1 (List.all_eq_true.1 honeof piece hpiece)]
    exact Bool.false_ne_true
  have hre : m.Reorders registry (split Record.decode input) (front ++ back ++ [high]) := by
    rw [hsplit]
    refine ⟨hperm, fun n ↦ ?_, fun g ↦ ?_, of_decide_eq_true hkept⟩
    · by_cases hn : 1 = n
      · subst hn
        rfl
      · simp [high, hn]
    · rw [List.filter_eq_nil_iff.2 (hnone g),
        List.filter_eq_nil_iff.2 fun piece hpiece ↦ hnone g piece (hperm.mem_iff.2 hpiece)]
  exact ⟨m, i, hm, hi, hre, (decodeAt_of_reorders hi hre).2.1⟩

end ProtoSchema
