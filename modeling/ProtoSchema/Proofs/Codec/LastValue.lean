import Mathlib.Data.List.Induction
import ProtoSchema.Proofs.Codec.Change
import ProtoSchema.Proofs.Codec.Storing

/-!
# The last value of a field

What a record brings to a single field can be told from the record alone: its number must be the
field's, and the reader of the field's elements must accept what stands behind the tag. Outside a
oneof, nothing else touches the slot of the field. So while the records are read one after the
other, in whatever order they come, the slot follows the last one of them that was accepted. This is
the invariant that carries everything here, and one record keeps it.

Only then are the empty slots looked at, in the order of the fields. The first of them that belongs
to a required field ends decoding, and if there is none, every field holds what its last accepted
record brought, or its declared default.
-/

set_option autoImplicit false

namespace ProtoSchema

open Wire

namespace Plan

section

variable (p : Plan) (reg : Registry) (nested : NestedReader)

/-- The value that the record at the front of the input brings to a single field, if it is accepted
for the field. -/
def accepted? (input : Bytes) : Option Value :=
  match Tag.decode input with
  | .ok (tag, afterTag) =>
    if tag.number = p.field.number then
      match (readElement reg nested p afterTag).result with
      | .ok (.accepted v, _) => some v
      | _ => none
    else none
  | .error _ => none

/-- What the last accepted record brings to a single field. -/
def last? (records : List (Bytes × Effect)) : Option Value :=
  records.reverse.findSome? fun r ↦ p.accepted? reg nested r.1

/-- The field is required, and no record is accepted for it. -/
def IsMissing (records : List (Bytes × Effect)) : Prop :=
  p.field.cardinality = .required ∧ ∀ r ∈ records, p.accepted? reg nested r.1 = none

/-- The record at the front of the input bears the number of the field. -/
def IsNumberOf (input : Bytes) : Prop :=
  ∃ tag afterTag, Tag.decode input = .ok (tag, afterTag) ∧ tag.number = p.field.number

/-- The elements of the field are those of a closed enum, and the record at the front of the input
bears the number of the field and holds a number that the enum does not declare. -/
def Undeclared (input : Bytes) : Prop :=
  ∃ tag afterTag rest target e w, Tag.decode input = .ok (tag, afterTag) ∧
    tag.number = p.field.number ∧ p.element = .enum target false ∧
    reg.enumMarshaller? target = some e ∧ Varint.decode afterTag = .ok (w, rest) ∧
    e.isKnown w.toUInt32.toInt32 = false

end

variable {p : Plan} {reg : Registry} {nested : NestedReader} {input afterTag rest : Bytes}
  {tag : Tag}

theorem accepted?_of_number (ht : Tag.decode input = .ok (tag, afterTag))
    (hnumber : tag.number = p.field.number) {reading : Reading}
    (hread : (readElement reg nested p afterTag).result = .ok (reading, rest)) :
    p.accepted? reg nested input =
      match reading with
      | .accepted v => some v
      | .rejected _ => none := by
  rw [accepted?, ht]
  simp only [hnumber, if_pos, hread]
  cases reading <;> rfl

theorem accepted?_of_ne (ht : Tag.decode input = .ok (tag, afterTag))
    (hnumber : tag.number ≠ p.field.number) : p.accepted? reg nested input = none := by
  rw [accepted?, ht]
  exact if_neg hnumber

/-- Numbers that a closed enum does not declare are not accepted. -/
theorem Undeclared.accepted?_eq_none (h : p.Undeclared reg input) :
    p.accepted? reg nested input = none := by
  obtain ⟨tag, afterTag, rest, target, e, w, ht, hnumber, helement, he, hword, hunknown⟩ := h
  cases hread : (readElement reg nested p afterTag).result with
  | error cause =>
    rw [accepted?, ht]
    simp only [hnumber, if_pos, hread]
  | ok read =>
    obtain ⟨reading, left⟩ := read
    rw [accepted?_of_number ht hnumber hread]
    have hreads := readElement_eq_ok hread
    rw [helement] at hreads
    cases hreads with
    | closedEnum hword' he' hknown =>
      cases hword.symm.trans hword'
      cases he.symm.trans he'
      rw [hunknown] at hknown
      cases hknown
    | rejected => rfl

theorem last?_append_singleton (records : List (Bytes × Effect)) (r : Bytes × Effect) :
    p.last? reg nested (records ++ [r])
      = (p.accepted? reg nested r.1).or (p.last? reg nested records) := by
  rw [last?, List.reverse_append, List.reverse_singleton, List.singleton_append,
    List.findSome?_cons]
  cases p.accepted? reg nested r.1 <;> rfl

/-- A required field is missing if no record is the last one. -/
theorem isMissing_iff {records : List (Bytes × Effect)} :
    p.IsMissing reg nested records ↔
      p.field.cardinality = .required ∧ p.last? reg nested records = none := by
  simp [IsMissing, last?, List.findSome?_eq_none_iff]

end Plan

namespace MessageMarshaller

variable {m : MessageMarshaller} {reg : Registry} {nested : NestedReader} {p : Plan} {k : Nat}
  {input rest : Bytes} {e : Effect} {records : List (Bytes × Effect)}

/-! ## One record of a single field

A record with the number of a single field sets it to an accepted value, or is retained. It is
retained only if the number that it holds is not one of a closed enum, and then it changes
nothing. -/

section

variable (hm : m.WellFormed) (hp : m.plans[k]? = some p)
  (hc : p.field.cardinality = .required ∨ p.field.cardinality = .optional)
  (h : (m.readRecord reg nested input).result = .ok (e, rest))
include hm hp hc h

theorem accepted_or_rejected {tag : Tag} {afterTag : Bytes}
    (ht : Tag.decode input = .ok (tag, afterTag)) (hnumber : tag.number = p.field.number) :
    (∃ v, (readElement reg nested p afterTag).result = .ok (.accepted v, rest) ∧
        e.change = some (k, .set v)) ∨
      ∃ n, (readElement reg nested p afterTag).result = .ok (.rejected n, rest) ∧
        e.change = none := by
  obtain ⟨tag', afterTag', ht', hcases⟩ := readRecord_eq_ok h
  obtain ⟨rfl, rfl⟩ := Prod.mk.inj (Except.ok.inj (ht.symm.trans ht'))
  have hplan : m.plan? tag.number = some (k, p) := hnumber ▸ plan?_of_getElem? hm.numbers hp
  rcases hcases with ⟨hnone, -⟩ | ⟨index, q, hsome, hread⟩
  · cases hplan.symm.trans hnone
  · cases hplan.symm.trans hsome
    cases hread with
    | single _ _ hread => exact .inl ⟨_, hread, rfl⟩
    | rejected _ _ hread => exact .inr ⟨_, hread, rfl⟩
    | entry hmap | spoiledEntry hmap => rcases hc with hc | hc <;> cases hc.symm.trans hmap
    | packed hlist | element hlist => rcases hc with hc | hc <;> cases hc.symm.trans hlist

theorem change_of_readRecord :
    (∃ v, p.accepted? reg nested input = some v ∧ e.change = some (k, .set v)) ∨
      p.accepted? reg nested input = none ∧ ∀ c, e.change ≠ some (k, c) := by
  obtain ⟨tag, afterTag, ht, hcases⟩ := readRecord_eq_ok h
  by_cases hnumber : tag.number = p.field.number
  · rcases accepted_or_rejected hm hp hc h ht hnumber with
      ⟨v, hread, hchange⟩ | ⟨n, hread, hchange⟩
    · exact .inl ⟨v, Plan.accepted?_of_number ht hnumber hread, hchange⟩
    · exact .inr ⟨Plan.accepted?_of_number ht hnumber hread, by simp [hchange]⟩
  · refine .inr ⟨Plan.accepted?_of_ne ht hnumber, fun c hchange ↦ hnumber ?_⟩
    rcases hcases with ⟨-, rfl, -⟩ | ⟨index, q, hplan, hread⟩
    · cases hchange
    · obtain ⟨hq, hqnumber⟩ := plan?_eq_some hplan
      have hindex : index = k := by
        cases hread <;> cases hchange <;> rfl
      rw [hindex, hp] at hq
      cases hq
      exact hqnumber.symm

theorem undeclared_of_readRecord (hinput : p.IsNumberOf input)
    (hnone : p.accepted? reg nested input = none) : p.Undeclared reg input := by
  obtain ⟨tag, afterTag, ht, hnumber⟩ := hinput
  rcases accepted_or_rejected hm hp hc h ht hnumber with ⟨v, hread, -⟩ | ⟨n, hread, -⟩
  · cases hnone.symm.trans (Plan.accepted?_of_number ht hnumber hread)
  · have hreads := readElement_eq_ok hread
    generalize helement : p.element = element at hreads
    cases hreads with
    | rejected hword he hunknown =>
      exact ⟨tag, afterTag, _, _, _, _, ht, hnumber, helement, he, hword, by simpa using hunknown⟩

theorem change_of_undeclared (hinput : p.Undeclared reg input) : e.change = none := by
  have hnone : p.accepted? reg nested input = none := hinput.accepted?_eq_none
  obtain ⟨tag, afterTag, -, -, -, -, ht, hnumber, -⟩ := hinput
  rcases accepted_or_rejected hm hp hc h ht hnumber with ⟨v, hread, -⟩ | ⟨n, -, hchange⟩
  · cases hnone.symm.trans (Plan.accepted?_of_number ht hnumber hread)
  · exact hchange

/-- One record keeps the slot of a single field outside a oneof in step with the last accepted
record. -/
theorem slotAfter_of_readRecord (honeof : p.field.oneof = none) (slot : Option Value) :
    Draft.slotAfter m k slot e = (p.accepted? reg nested input).or slot := by
  rcases change_of_readRecord hm hp hc h with ⟨v, hv, hchange⟩ | ⟨hnone, hother⟩
  · rw [hv, Draft.slotAfter_of_eq hchange]
    rfl
  · rw [hnone, Option.none_or]
    cases hchange : e.change with
    | none => exact Draft.slotAfter_of_none hchange
    | some change =>
      obtain ⟨j, c⟩ := change
      have hjk : j ≠ k := by
        rintro rfl
        exact hother c hchange
      refine (Draft.slotAfter_of_ne hchange hjk).resolve_right ?_
      rintro ⟨-, hexclude, -⟩
      obtain ⟨_, q, g, -, hq, -, hg⟩ := Draft.exclude_eq_true.1 hexclude
      cases hp.symm.trans hq
      cases honeof.symm.trans hg

end

/-! ## All records

The invariant is kept by one record at a time and holds of the empty slot before the first one.
Records of other fields leave the slot alone, except those of the same oneof, which is why the field
may not be in one. -/

/-- **Slots follow the last accepted record**, however records of a field are repeated and
interleaved with others. -/
theorem slot_eq_last? (hm : m.WellFormed) (hp : m.plans[k]? = some p)
    (hc : p.field.cardinality = .required ∨ p.field.cardinality = .optional)
    (honeof : p.field.oneof = none)
    (h : ∀ r ∈ records, ∃ rest, (m.readRecord reg nested r.1).result = .ok (r.2, rest)) :
    m.slot (records.map (·.2)) k = p.last? reg nested records := by
  induction records using List.reverseRecOn with
  | nil => rfl
  | append_singleton records r ih =>
    obtain ⟨rest, hr⟩ := h r (List.mem_append_right _ List.mem_cons_self)
    rw [List.map_append, List.map_singleton, slot_append_singleton,
      ih fun r' hr' ↦ h r' (List.mem_append_left _ hr'), Plan.last?_append_singleton]
    exact slotAfter_of_readRecord hm hp hc hr honeof _

theorem WellFormed.oneof_of_required (hm : m.WellFormed) (hp : p ∈ m.plans)
    (hc : p.field.cardinality = .required) : p.field.oneof = none :=
  (hm.plans p hp).oneof_eq_none (by rw [hc]; decide)

/-! ## Filling what is empty

Slots are filled in the order of the fields, and filling stops at the first one that cannot be
filled. A slot cannot be filled if its field is required and nothing came for it. -/

theorem exists_fill (hm : m.WellFormed) (hp : m.plans[k]? = some p)
    (h : ∀ r ∈ records, ∃ rest, (m.readRecord reg nested r.1).result = .ok (r.2, rest))
    (hmissing : ¬p.IsMissing reg nested records) :
    ∃ o, m.fill p (m.slot (records.map (·.2)) k) = .ok o := by
  cases hslot : m.slot (records.map (·.2)) k with
  | some v => exact ⟨some v, rfl⟩
  | none =>
    rw [fill]
    cases hc : p.field.cardinality with
    | required =>
      have honeof := hm.oneof_of_required (List.mem_of_getElem? hp) hc
      rw [slot_eq_last? hm hp (.inl hc) honeof h] at hslot
      exact absurd (Plan.isMissing_iff.2 ⟨hc, hslot⟩) hmissing
    | optional | repeated | map => exact ⟨_, rfl⟩

theorem fill_of_isMissing (hm : m.WellFormed) (hp : m.plans[k]? = some p)
    (h : ∀ r ∈ records, ∃ rest, (m.readRecord reg nested r.1).result = .ok (r.2, rest))
    (hmissing : p.IsMissing reg nested records) :
    m.fill p (m.slot (records.map (·.2)) k)
      = .error (.required m.descriptor.qualifiedName p.field.name) := by
  obtain ⟨hc, hlast⟩ := Plan.isMissing_iff.1 hmissing
  have honeof := hm.oneof_of_required (List.mem_of_getElem? hp) hc
  rw [slot_eq_last? hm hp (.inl hc) honeof h, hlast, fill]
  simp only [hc]

theorem getElem?_slots {effects : List Effect} {a : Plan × Option Value}
    (h : (m.plans.zip (effects.foldl (Draft.apply m) (.empty m)).slots)[k]? = some a) :
    m.plans[k]? = some a.1 ∧ a.2 = m.slot effects k := by
  rw [Draft.slots_foldl, List.getElem?_zip_eq_some, List.getElem?_mapIdx] at h
  obtain ⟨hplan, hslot⟩ := h
  rw [hplan, Option.map_some, Option.some_inj] at hslot
  exact ⟨hplan, hslot.symm⟩

/-- The first missing field, in the order of the fields. -/
def FirstMissing (m : MessageMarshaller) (reg : Registry) (nested : NestedReader)
    (records : List (Bytes × Effect)) (p : Plan) : Prop :=
  ∃ k, m.plans[k]? = some p ∧ p.IsMissing reg nested records ∧
    ∀ (j : Nat) (q : Plan), j < k → m.plans[j]? = some q → ¬q.IsMissing reg nested records

/-- The first missing field is the one that is reported. -/
theorem handing_of_firstMissing (hm : m.WellFormed)
    (h : ∀ r ∈ records, ∃ rest, (m.readRecord reg nested r.1).result = .ok (r.2, rest))
    (hfirst : m.FirstMissing reg nested records p) :
    m.handing (records.map (·.2))
      = .error (.required m.descriptor.qualifiedName p.field.name) := by
  obtain ⟨k, hp, hmissing, hbefore⟩ := hfirst
  have hlength : m.plans.length
      = ((records.map (·.2)).foldl (Draft.apply m) (.empty m)).slots.length := by
    rw [Draft.slots_foldl, List.length_mapIdx]
  rw [handing, map_eq_error]
  obtain ⟨a, ha⟩ : ∃ a, (m.plans.zip
      ((records.map (·.2)).foldl (Draft.apply m) (.empty m)).slots)[k]? = some a := by
    refine ⟨_, List.getElem?_eq_getElem ?_⟩
    rw [List.length_zip, ← hlength, Nat.min_self]
    exact (List.getElem?_eq_some_iff.1 hp).1
  refine mapM_of_first_error ha ?_ fun j b hj hb ↦ ?_
  · obtain ⟨hplan, hslot⟩ := getElem?_slots ha
    cases hp.symm.trans hplan
    rw [hslot]
    exact fill_of_isMissing hm hp h hmissing
  · obtain ⟨hplan, hslot⟩ := getElem?_slots hb
    rw [hslot]
    exact exists_fill hm hplan h (hbefore j _ hj hplan)

theorem exists_handing (hm : m.WellFormed)
    (h : ∀ r ∈ records, ∃ rest, (m.readRecord reg nested r.1).result = .ok (r.2, rest))
    (hmissing : ∀ p ∈ m.plans, ¬p.IsMissing reg nested records) :
    ∃ hand, m.handing (records.map (·.2)) = .ok hand := by
  have hall : ∀ a ∈ m.plans.zip ((records.map (·.2)).foldl (Draft.apply m) (.empty m)).slots,
      ∃ o, m.fill a.1 a.2 = .ok o := by
    intro a ha
    obtain ⟨k, hk⟩ := List.mem_iff_getElem?.1 ha
    obtain ⟨hplan, hslot⟩ := getElem?_slots hk
    rw [hslot]
    exact exists_fill hm hplan h (hmissing _ (List.mem_of_getElem? hplan))
  obtain ⟨values, hvalues⟩ := exists_mapM hall
  exact ⟨_, by rw [handing, hvalues, map_ok]⟩

theorem exists_firstMissing (hp : p ∈ m.plans) (hmissing : p.IsMissing reg nested records) :
    ∃ q, m.FirstMissing reg nested records q := by
  obtain ⟨k, hk⟩ := List.mem_iff_getElem?.1 hp
  induction k using Nat.strongRecOn generalizing p with
  | ind k ih =>
    by_cases hearlier : ∃ j q, j < k ∧ m.plans[j]? = some q ∧ q.IsMissing reg nested records
    · obtain ⟨j, q, hj, hq, hqmissing⟩ := hearlier
      exact ih j hj (List.mem_of_getElem? hq) hqmissing hq
    · exact ⟨p, k, hk, hmissing, fun j q hj hq hq' ↦ hearlier ⟨j, q, hj, hq, hq'⟩⟩

/-- A single field outside a oneof is handed what its last accepted record brought, or else its
declared default. -/
theorem hand_of_last? (hm : m.WellFormed)
    (h : ∀ r ∈ records, ∃ rest, (m.readRecord reg nested r.1).result = .ok (r.2, rest))
    {hand : List Nat → Option Value} (hhand : m.handing (records.map (·.2)) = .ok hand)
    (hp : p ∈ m.plans) (hc : p.field.cardinality = .required ∨ p.field.cardinality = .optional)
    (honeof : p.field.oneof = none) :
    hand p.path = (p.last? reg nested records).or p.defaultValue? := by
  obtain ⟨k, hk⟩ := List.mem_iff_getElem?.1 hp
  have hfill := fill_of_handing hm hhand hk
  rw [slot_eq_last? hm hk hc honeof h] at hfill
  cases hlast : p.last? reg nested records with
  | some v =>
    rw [hlast, fill] at hfill
    exact (Except.ok.inj hfill).symm
  | none =>
    rw [hlast] at hfill
    rcases hc with hc | hc
    · simp only [fill, hc, reduceCtorEq] at hfill
    · rw [fill_none m hc] at hfill
      exact (Except.ok.inj hfill).symm

/-- Decoding reports a required field exactly if one is missing, and then the first one. -/
theorem result_eq_required_iff (hm : m.WellFormed)
    (hreads : ReadTrace (m.readRecord reg nested) input records) {typeName field : String} :
    (m.decodeWith reg nested input).result = .error (.required typeName field) ↔
      ∃ p, m.FirstMissing reg nested records p ∧ typeName = m.descriptor.qualifiedName ∧
        field = p.field.name := by
  have hread := fun r hr ↦ hreads.step_of_mem (r := r) hr
  constructor
  · intro herror
    by_cases hmissing : ∀ p ∈ m.plans, ¬p.IsMissing reg nested records
    · obtain ⟨hand, hhand⟩ := exists_handing hm hread hmissing
      rw [result_decodeWith_of_handing hreads hhand, mapError_eq_error] at herror
      obtain ⟨cause, -, hcause⟩ := herror
      cases hcause
    · simp only [not_forall, not_not] at hmissing
      obtain ⟨q, hq, hqmissing⟩ := hmissing
      obtain ⟨p, hfirst⟩ := exists_firstMissing hq hqmissing
      have hhand := handing_of_firstMissing hm hread hfirst
      rw [result_decodeWith_of_handing_eq_error hreads hhand] at herror
      cases herror
      exact ⟨p, hfirst, rfl, rfl⟩
  · rintro ⟨p, hfirst, rfl, rfl⟩
    exact result_decodeWith_of_handing_eq_error hreads (handing_of_firstMissing hm hread hfirst)

end MessageMarshaller

/-- **The last value wins, and required means seen.** Let the records of an input be read without an
error by a compiled message type. Decoding then reports a required field exactly if no record was
accepted for some required field, and it names the first such field, in the order of the descriptor
and under the name of the type. Otherwise it comes to what the factories make of values among which
every single field outside a oneof has that of its last accepted record, or else its declared
default, if any. Of the records of such a field, those are not accepted that hold a number which a
closed enum does not declare, and they change nothing. -/
theorem lastValue_of_readAll {m : MessageMarshaller} (hm : m.Compiled) {reg : Registry}
    {levels : Nat} {input : Bytes} {effects : List Effect}
    (hloop : (readAll (m.readRecord reg (reg.nestedAt levels)) input).result = .ok effects) :
    ∃ records, ReadTrace (m.readRecord reg (reg.nestedAt levels)) input records ∧
      records.map (·.2) = effects ∧ m.plans.map (·.field) = m.descriptor.fields ∧
      ((∃ typeName field,
          (reg.decodeAt levels m input).result = .error (.required typeName field)) ↔
        ∃ p ∈ m.plans, p.IsMissing reg (reg.nestedAt levels) records) ∧
      (∀ typeName field,
        (reg.decodeAt levels m input).result = .error (.required typeName field) ↔
          ∃ p, m.FirstMissing reg (reg.nestedAt levels) records p ∧
            typeName = m.descriptor.qualifiedName ∧ field = p.field.name) ∧
      ((∀ p ∈ m.plans, ¬p.IsMissing reg (reg.nestedAt levels) records) →
        ∃ hand, m.handing effects = .ok hand ∧
          (reg.decodeAt levels m input).result
            = (m.layout.assemble hand [] ⟨effects.flatMap (·.retained)⟩).mapError .factory ∧
          ∀ p ∈ m.plans, (p.field.cardinality = .required ∨ p.field.cardinality = .optional) →
            p.field.oneof = none →
            hand p.path = (p.last? reg (reg.nestedAt levels) records).or p.defaultValue?) ∧
      ∀ r ∈ records, ∀ p ∈ m.plans,
        (p.field.cardinality = .required ∨ p.field.cardinality = .optional) → p.IsNumberOf r.1 →
          (p.accepted? reg (reg.nestedAt levels) r.1 = none ↔ p.Undeclared reg r.1) ∧
          (p.Undeclared reg r.1 → r.2.change = none) := by
  obtain ⟨env, resolve, info, message, hmade⟩ := hm.exists_madeOf
  have hwell := hm.wellFormed
  obtain ⟨records, hreads, rfl⟩ := readAll_eq_ok.1 hloop
  have hread := fun r hr ↦ hreads.step_of_mem (r := r) hr
  rw [Registry.decodeAt_eq]
  refine ⟨records, hreads, rfl, hmade.fields, ⟨?_, ?_⟩, fun typeName field ↦ ?_, fun hmissing ↦ ?_,
    fun r hr p hp hc hnumber ↦ ?_⟩
  · rintro ⟨typeName, field, herror⟩
    obtain ⟨p, ⟨k, hk, hmissing, -⟩, -⟩ :=
      (MessageMarshaller.result_eq_required_iff hwell hreads).1 herror
    exact ⟨p, List.mem_of_getElem? hk, hmissing⟩
  · rintro ⟨p, hp, hmissing⟩
    obtain ⟨q, hfirst⟩ := MessageMarshaller.exists_firstMissing hp hmissing
    exact ⟨_, _, (MessageMarshaller.result_eq_required_iff hwell hreads).2 ⟨q, hfirst, rfl, rfl⟩⟩
  · exact MessageMarshaller.result_eq_required_iff hwell hreads
  · obtain ⟨hand, hhand⟩ := MessageMarshaller.exists_handing hwell hread hmissing
    exact ⟨hand, hhand, MessageMarshaller.result_decodeWith_of_handing hreads hhand,
      fun p hp hc honeof ↦ MessageMarshaller.hand_of_last? hwell hread hhand hp hc honeof⟩
  · obtain ⟨k, hk⟩ := List.mem_iff_getElem?.1 hp
    obtain ⟨rest, hrest⟩ := hread r hr
    exact ⟨⟨MessageMarshaller.undeclared_of_readRecord hwell hk hc hrest hnumber,
      Plan.Undeclared.accepted?_eq_none⟩,
      MessageMarshaller.change_of_undeclared hwell hk hc hrest⟩

/-! ## A lantern that is lit twice

The number of a lantern is required, and the values of its level are closed. -/

namespace Lantern

def level : TypeId := ⟨"lantern::Level"⟩

def lantern : TypeId := ⟨"lantern::Lantern"⟩

/-- A lantern with a required number and a level, the values of which are closed. -/
def environment : Environment :=
  [{ type := level, path := level.name
     kind := .enum [{ name := "Dim", number := 1 }, { name := "Bright", number := 2 }] },
    .storing lantern
      [({ name := "id", kind := .field (.scalar .int32), getter := ·, number := some 1
          required := true }),
        ({ name := "level", kind := .field (.optional (.enum (.of level) false)), getter := ·
           number := some 2 })]]

def registry : Registry :=
  CompilationUnit.registry { fileName := "lantern.proto", requested := [.of lantern] } environment

theorem compiled_registry : registry.Compiled := CompilationUnit.compiled_registry _ _

def idPlan : Plan where
  field := ⟨1, "id", .varint, .required, .scalar .int32, none, none, false, false, none, none⟩
  element := .scalar .int32
  path := [0]

def levelPlan : Plan where
  field := ⟨2, "level", .varint, .optional, .enum "Level", none, none, true, false, none, none⟩
  element := .enum level false
  path := [1]

/-- A level, a number, a level that is not declared, and another number. -/
def relit : Bytes := [0x10, 0x01, 0x08, 0x05, 0x10, 0x07, 0x08, 0x06]

/-- A level only. -/
def unnumbered : Bytes := [0x10, 0x01]

theorem exists_marshaller : ∃ m effects effects' i, registry.messageMarshaller? lantern = some m ∧
    m.plans = [idPlan, levelPlan] ∧
    (readAll (m.readRecord registry (registry.nestedAt nestingLimit)) relit).result
      = .ok effects ∧
    (readAll (m.readRecord registry (registry.nestedAt nestingLimit)) unnumbered).result
      = .ok effects' ∧
    (registry.decodeAt nestingLimit m relit).result = .ok i ∧
    (registry.decodeAt nestingLimit m unnumbered).result = .error (.required "Lantern" "id") := by
  have hall : (registry.messageMarshaller? lantern).map (fun m ↦
      (m.plans,
        (readAll (m.readRecord registry (registry.nestedAt nestingLimit))
          unnumbered).result.toOption.isSome,
        (registry.decodeAt nestingLimit m relit).result.toOption.isSome,
        (registry.decodeAt nestingLimit m unnumbered).result.map fun _ ↦ ()))
          = some ([idPlan, levelPlan], true, true, .error (.required "Lantern" "id")) := by
    decide +kernel
  obtain ⟨m, hm, hall⟩ := Option.map_eq_some_iff.1 hall
  simp only [Prod.mk.injEq] at hall
  obtain ⟨hplans, hunnumbered, hdecode, herror⟩ := hall
  obtain ⟨effects', heffects'⟩ := isSome_toOption_iff.1 hunnumbered
  obtain ⟨i, hi⟩ := isSome_toOption_iff.1 hdecode
  have hread := hi
  rw [Registry.decodeAt_eq, Draft.result_decodeWith] at hread
  obtain ⟨effects, heffects, -⟩ := bind_eq_ok.1 hread
  exact ⟨m, effects, effects', i, hm, hplans, heffects, heffects', hi, map_eq_error.1 herror⟩

end Lantern

/-- The lantern is handed the last number and the last level that is declared. Without a number it
is not decoded, since the number is missing. -/
theorem Lantern.lastValue_of_readAll_relit : ∃ m records records' hand,
    registry.messageMarshaller? lantern = some m ∧ m.plans = [idPlan, levelPlan] ∧
    ReadTrace (m.readRecord registry (registry.nestedAt nestingLimit)) relit records ∧
    m.handing (records.map (·.2)) = .ok hand ∧
    hand [0] = idPlan.last? registry (registry.nestedAt nestingLimit) records ∧
    hand [1] = levelPlan.last? registry (registry.nestedAt nestingLimit) records ∧
    ReadTrace (m.readRecord registry (registry.nestedAt nestingLimit)) unnumbered records' ∧
    m.FirstMissing registry (registry.nestedAt nestingLimit) records' idPlan := by
  obtain ⟨m, effects, effects', i, hm, hplans, hrelit, hunnumbered, hdecode, herror⟩ :=
    exists_marshaller
  have hcompiled := compiled_registry.marshaller hm
  obtain ⟨records, hreads, rfl, -, hmissing, -, hhand, -⟩ := lastValue_of_readAll hcompiled hrelit
  obtain ⟨records', hreads', -, -, -, hfirst, -⟩ := lastValue_of_readAll hcompiled hunnumbered
  have hnone : ∀ p ∈ m.plans, ¬p.IsMissing registry (registry.nestedAt nestingLimit) records := by
    intro p hp hp'
    obtain ⟨typeName, field, h⟩ := hmissing.2 ⟨p, hp, hp'⟩
    cases hdecode.symm.trans h
  obtain ⟨hand, hhanding, -, hlast⟩ := hhand hnone
  obtain ⟨p, hp, -, hname⟩ := (hfirst _ _).1 herror
  rw [hplans] at hlast
  have hid := hlast idPlan (.head _) (.inl rfl) rfl
  have hlevel := hlast levelPlan (.tail _ (.head _)) (.inr rfl) rfl
  have hpid : p = idPlan := by
    obtain ⟨k, hk, -⟩ := hp
    rw [hplans] at hk
    rcases List.mem_of_getElem? hk with _ | ⟨_, _ | ⟨_, ⟨⟩⟩⟩
    · rfl
    · exact absurd hname (by decide)
  exact ⟨m, records, records', hand, hm, hplans, hreads, hhanding, hid.trans (Option.or_none ..),
    hlevel.trans (Option.or_none ..), hreads', hpid ▸ hp⟩

end ProtoSchema
