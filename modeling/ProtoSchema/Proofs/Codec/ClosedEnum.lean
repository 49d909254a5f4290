import Mathlib.Data.List.Induction
import Mathlib.Data.Set.List
import ProtoSchema.Proofs.Codec.Change
import ProtoSchema.Proofs.Codec.RoundTrip

/-!
# Numbers of closed enums

The numbers that a factory is handed for a field of a closed enum come from four places: single
values, elements of lists and values of map entries, all of which the reader judges by the
registered enum; the zero of a map entry in which no value stands; and the declared default of a
field that no record set. The last two are not judged. So the field holds declared numbers only
exactly if zero is declared where such an entry came, and the default is declared where it was used.
-/

set_option autoImplicit false

namespace ProtoSchema

open Wire

/-- The number of an enum value. -/
def Value.enumNumber? : Value → Option Int32
  | enum n => some n
  | _ => none

/-- The enum numbers in the value of a field: its own, or those of its elements or entries. -/
def Value.enumNumbers : Value → List Int32
  | enum n => [n]
  | list vs => vs.filterMap Value.enumNumber?
  | map es => es.filterMap fun e ↦ e.2.enumNumber?
  | _ => []

/-- The enum numbers in a slot. -/
def slotNumbers (slot : Option Value) : List Int32 := (slot.map Value.enumNumbers).getD []

/-- The enum numbers that a change brings. -/
def Change.enumNumbers : Change → List Int32
  | set v => v.enumNumbers
  | append vs => vs.filterMap Value.enumNumber?
  | insert _ v => v.enumNumber?.toList

/-! ## Where numbers come from

The numbers in a slot were brought by changes of its field, so each of them goes back to one record.
Those that were accepted are declared. What is left are zeros of map entries, which the record
shows, and the declared default, which is used where the slot stayed empty. -/

section

variable {reg : Registry} {nested : NestedReader} {p : Plan} {target : TypeId} {v : Value}

theorem Plan.Accepts.closed (h : p.Accepts reg nested v) (hp : p.element = .enum target false) :
    ∃ n e, v = .enum n ∧ reg.enumMarshaller? target = some e ∧ e.isKnown n = true := by
  obtain ⟨input, rest, h⟩ := h
  have hread := readElement_eq_ok h
  rw [hp] at hread
  cases hread with
  | closedEnum _ he hknown => exact ⟨_, _, rfl, he, hknown⟩

theorem zeroElement_enum (hp : p.element = .enum target false)
    (h : (zeroElement reg nested p).result = .ok v) : v = .enum 0 := by
  unfold zeroElement at h
  rw [hp] at h
  cases h
  rfl

/-- The numbers that a change leaves in its slot were there before or are brought by it. -/
theorem Change.mem_numbers_on {c : Change} {slot : Option Value} {n : Int32}
    (h : n ∈ slotNumbers (c.on slot)) : n ∈ slotNumbers slot ∨ n ∈ c.enumNumbers := by
  unfold Change.on at h
  cases c with
  | set v => exact .inr h
  | append vs =>
    dsimp only at h
    split at h
    · rwa [slotNumbers, Option.map_some, Option.getD_some, Value.enumNumbers, List.filterMap_append,
        List.mem_append] at h
    · exact .inr h
  | insert key v =>
    dsimp only at h
    have hone : [(key, v)].filterMap (fun e ↦ e.2.enumNumber?) = v.enumNumber?.toList := by
      cases hv : v.enumNumber? <;> simp [hv]
    split at h
    · rwa [slotNumbers, Option.map_some, Option.getD_some, Value.enumNumbers, List.filterMap_append,
        List.mem_append, hone] at h
    · rw [slotNumbers, Option.map_some, Option.getD_some, Value.enumNumbers, hone] at h
      exact .inr h

/-- A record that brings a number to a closed enum's field brings a declared one, or the zero of an
entry in which no value stands. -/
theorem Plan.Brings.closed {input : Bytes} {c : Change} (h : p.Brings reg nested input c)
    (hp : p.element = .enum target false) {n : Int32} (hn : n ∈ c.enumNumbers) :
    (∃ e, reg.enumMarshaller? target = some e ∧ e.isKnown n = true) ∨
      n = 0 ∧ p.LacksValue reg nested input ∧ ∃ key v, c = .insert key v := by
  cases h with
  | set _ hv =>
    obtain ⟨n', e, rfl, he, hknown⟩ := hv.closed hp
    rw [List.mem_singleton.1 hn]
    exact .inl ⟨e, he, hknown⟩
  | append _ hvs =>
    obtain ⟨v, hv, hn⟩ := List.mem_filterMap.1 hn
    obtain ⟨n', e, rfl, he, hknown⟩ := (hvs v hv).closed hp
    cases hn
    exact .inl ⟨e, he, hknown⟩
  | insert _ _ hv =>
    obtain ⟨n', e, rfl, he, hknown⟩ := hv.closed hp
    rw [List.mem_singleton.1 hn]
    exact .inl ⟨e, he, hknown⟩
  | @insertZero key v _ hlacks hv =>
    obtain rfl := zeroElement_enum hp hv
    exact .inr ⟨List.mem_singleton.1 hn, hlacks, key, _, rfl⟩

end

namespace MessageMarshaller

variable {m : MessageMarshaller} {k : Nat}

theorem exists_change_of_mem_slot {effects : List Effect} {n : Int32}
    (h : n ∈ slotNumbers (m.slot effects k)) :
    ∃ e ∈ effects, ∃ c, e.change = some (k, c) ∧ n ∈ c.enumNumbers := by
  have hall : ∀ v, m.slot effects k = some v → ∀ n ∈ v.enumNumbers,
      ∃ e ∈ effects, ∃ c, e.change = some (k, c) ∧ n ∈ c.enumNumbers := by
    refine slot_induction fun e he c hc slot hold v hv n hn ↦ ?_
    have hmem : n ∈ slotNumbers (c.on slot) := by
      rw [hv]
      exact hn
    rcases Change.mem_numbers_on hmem with hmem | hmem
    · cases slot with
      | none => cases hmem
      | some w => exact hold w rfl n hmem
    · exact ⟨e, he, c, hc, hmem⟩
  cases hslot : m.slot effects k with
  | none =>
    rw [hslot] at h
    cases h
  | some v =>
    rw [hslot] at h
    exact hall v hslot n h

variable {reg : Registry} {nested : NestedReader} {input : Bytes} {records : List (Bytes × Effect)}
  {hand : List Nat → Option Value} {i : Instance} {p : Plan}

theorem Decodes.brings (h : m.Decodes reg nested input records hand i) {r : Bytes × Effect}
    (hr : r ∈ records) {c : Change} (hc : r.2.change = some (k, c)) (hp : m.plans[k]? = some p) :
    p.Brings reg nested r.1 c := by
  obtain ⟨rest, hstep⟩ := h.reads.step_of_mem hr
  obtain ⟨q, hq, hbrings⟩ := brings_of_readRecord hstep hc
  obtain rfl := Option.some.inj (hp.symm.trans hq)
  exact hbrings

theorem Decodes.exists_insertions (h : m.Decodes reg nested input records hand i)
    (hp : m.plans[k]? = some p) (hc : p.field.cardinality = .map) :
    ∃ es : List (Value × Value),
      es.map (fun e ↦ Change.insert e.1 e.2) = changesAt k (records.map (·.2)) := by
  refine (Set.ext_iff.1 (Set.range_list_map _) _).2 fun c hmem ↦ ?_
  obtain ⟨e, he, hchange⟩ := List.mem_filterMap.1 hmem
  obtain ⟨r, hr, rfl⟩ := List.mem_map.1 he
  obtain ⟨⟨j, c'⟩, hc', hj⟩ := Option.bind_eq_some_iff.1 hchange
  dsimp only at hj
  split at hj
  · next hjk =>
    cases hj
    cases h.brings hr (hjk ▸ hc') hp with
    | set hcard _ => rcases hcard with hcard | hcard <;> rw [hc] at hcard <;> cases hcard
    | append hcard _ =>
      rw [hc] at hcard
      cases hcard
    | insert _ _ _ => exact ⟨(_, _), rfl⟩
    | insertZero _ _ _ => exact ⟨(_, _), rfl⟩
  · cases hj

theorem Decodes.hand_map (hm : m.WellFormed) (h : m.Decodes reg nested input records hand i)
    (hp : m.plans[k]? = some p) (hc : p.field.cardinality = .map) :
    ∃ es : List (Value × Value), hand p.path = some (.map es) ∧
      ∀ r ∈ records, ∀ key v, r.2.change = some (k, .insert key v) → (key, v) ∈ es := by
  obtain ⟨es, hes⟩ := h.exists_insertions hp hc
  have hslot : m.slot (records.map (·.2)) k = collect (es.map fun e ↦ .insert e.1 e.2) := by
    rw [hes]
    refine Draft.foldl_slotAfter_of_exclusive none fun e _ j v _ hx ↦ ?_
    -- A map is in no oneof, so no other field ever clears it.
    obtain ⟨_, q, g, -, hq, -, hg⟩ := Draft.exclude_eq_true.1 hx
    obtain rfl := Option.some.inj (hp.symm.trans hq)
    rw [((hm.plans p (List.mem_of_getElem? hp)).oneof g hg).1] at hc
    cases hc
  have hfill := fill_of_handing hm h.hands hp
  rw [hslot, fill_collect_insert m hc] at hfill
  refine ⟨es, (Except.ok.inj hfill).symm, fun r hr key v hr' ↦ ?_⟩
  have hmem : Change.insert key v ∈ changesAt k (records.map (·.2)) :=
    List.mem_filterMap.2 ⟨r.2, List.mem_map.2 ⟨r, hr, rfl⟩, by simp [hr']⟩
  rw [← hes] at hmem
  obtain ⟨e, he, heq⟩ := List.mem_map.1 hmem
  cases heq
  exact he

theorem default_of_fill_none {target : TypeId} {v : Value} {n : Int32}
    (he : p.element = .enum target false) (hfill : m.fill p none = .ok (some v))
    (hn : n ∈ v.enumNumbers) :
    p.field.cardinality = .optional ∧ p.defaultValue? = some (.enum n) := by
  cases hc : p.field.cardinality with
  | optional =>
    rw [fill_none m hc] at hfill
    have hd := Except.ok.inj hfill
    obtain ⟨d, -, hdv⟩ := Option.bind_eq_some_iff.1 hd
    rw [he] at hdv
    cases d <;> cases hdv
    rw [List.mem_singleton.1 hn]
    exact ⟨rfl, hd⟩
  | required =>
    simp only [fill, hc] at hfill
    cases hfill
  | repeated =>
    simp only [fill, hc] at hfill
    cases hfill
    cases hn
  | map =>
    simp only [fill, hc] at hfill
    cases hfill
    cases hn

/-- A number that a field of a closed enum is handed was accepted, stands in for the value of an
entry, or is the declared default. -/
theorem Decodes.origin_of_number (hm : m.WellFormed)
    (h : m.Decodes reg nested input records hand i) (hp : m.plans[k]? = some p) {target : TypeId}
    (he : p.element = .enum target false) {v : Value} (hv : hand p.path = some v) {n : Int32}
    (hn : n ∈ v.enumNumbers) :
    (∃ e, reg.enumMarshaller? target = some e ∧ e.isKnown n = true) ∨
      (n = 0 ∧ ∃ r ∈ records, (∃ key v, r.2.change = some (k, .insert key v)) ∧
        p.LacksValue reg nested r.1) ∨
      (p.field.cardinality = .optional ∧ m.slot (records.map (·.2)) k = none ∧
        p.defaultValue? = some (.enum n)) := by
  have hfill := fill_of_handing hm h.hands hp
  rw [hv] at hfill
  cases hslot : m.slot (records.map (·.2)) k with
  | some w =>
    rw [hslot, fill] at hfill
    have hn : n ∈ slotNumbers (m.slot (records.map (·.2)) k) := by
      rw [hslot, Except.ok.inj hfill]
      exact hn
    obtain ⟨effect, heffect, c, hc, hn⟩ := exists_change_of_mem_slot hn
    obtain ⟨r, hr, rfl⟩ := List.mem_map.1 heffect
    rcases (h.brings hr hc hp).closed he hn with hknown | ⟨hzero, hlacks, key, v, rfl⟩
    · exact .inl hknown
    · exact .inr (.inl ⟨hzero, r, hr, ⟨key, v, hc⟩, hlacks⟩)
  | none =>
    rw [hslot] at hfill
    obtain ⟨hc, hd⟩ := default_of_fill_none he hfill hn
    exact .inr (.inr ⟨hc, rfl, hd⟩)

/-- What a field of a closed enum is handed is declared exactly if zero is, where an entry without a
value came, and the default is, where no record left a value. -/
theorem Decodes.closed_iff (hm : m.WellFormed) (h : m.Decodes reg nested input records hand i)
    (hp : m.plans[k]? = some p) {target : TypeId} (he : p.element = .enum target false)
    {e : EnumMarshaller} (henum : reg.enumMarshaller? target = some e) :
    (∀ v, hand p.path = some v → ∀ n ∈ v.enumNumbers, e.isKnown n = true) ↔
      ((∃ r ∈ records, (∃ key v, r.2.change = some (k, .insert key v)) ∧
          p.LacksValue reg nested r.1) → e.isKnown 0 = true) ∧
      (p.field.cardinality = .optional → m.slot (records.map (·.2)) k = none →
        ∀ n, p.defaultValue? = some (.enum n) → e.isKnown n = true) := by
  constructor
  · refine fun hall ↦ ⟨?_, fun hc hslot n hd ↦ ?_⟩
    · rintro ⟨r, hr, ⟨key, v, hchange⟩, hlacks⟩
      cases h.brings hr hchange hp with
      | insert _ hholds _ => exact absurd hlacks hholds
      | insertZero hc _ hv =>
        obtain rfl := zeroElement_enum he hv
        obtain ⟨es, hes, hmem⟩ := h.hand_map hm hp hc
        exact hall _ hes 0 (List.mem_filterMap.2 ⟨_, hmem r hr key _ hchange, rfl⟩)
    · have hfill := fill_of_handing hm h.hands hp
      rw [hslot, fill_none m hc] at hfill
      exact hall _ ((Except.ok.inj hfill).symm.trans hd) n List.mem_cons_self
  · rintro ⟨hzero, hdefault⟩ v hv n hn
    rcases h.origin_of_number hm hp he hv hn with
      ⟨e', he', hknown⟩ | ⟨rfl, hentry⟩ | ⟨hc, hslot, hd⟩
    · obtain rfl := Option.some.inj (henum.symm.trans he')
      exact hknown
    · exact hzero hentry
    · exact hdefault hc hslot n hd

end MessageMarshaller

/-- **Which numbers of closed enums are handed over.** For every compiled registry, every message
type in it, every input that is decoded at any level and every field of a closed enum, the numbers
that the factory is handed are declared by the registered enum exactly if zero is declared, should
an entry come in which no value stands, and the declared default of the field is, should it be used.
-/
theorem closedEnum_handing_of_compiled {reg : Registry} (hreg : reg.Compiled) {t : TypeId}
    {m : MessageMarshaller} (hm : reg.messageMarshaller? t = some m) {levels : Nat} {input : Bytes}
    {i : Instance} (hdecode : (reg.decodeAt levels m input).result = .ok i) {k : Nat} {p : Plan}
    (hp : m.plans[k]? = some p) {target : TypeId} (he : p.element = .enum target false) :
    ∃ records hand e, m.Decodes reg (reg.nestedAt levels) input records hand i ∧
      reg.enumMarshaller? target = some e ∧
      ((∀ v, hand p.path = some v → ∀ n ∈ v.enumNumbers, e.isKnown n = true) ↔
        ((∃ r ∈ records, (∃ key v, r.2.change = some (k, .insert key v)) ∧
            p.LacksValue reg (reg.nestedAt levels) r.1) → e.isKnown 0 = true) ∧
        (p.field.cardinality = .optional → m.slot (records.map (·.2)) k = none →
          ∀ n, p.defaultValue? = some (.enum n) → e.isKnown n = true)) := by
  rw [Registry.decodeAt_eq] at hdecode
  obtain ⟨records, hand, h⟩ := MessageMarshaller.decodeWith_eq_ok.1 hdecode
  have hres := hreg.closed.resolved t m hm p (List.mem_of_getElem? hp)
  rw [he] at hres
  obtain ⟨e, henum⟩ := hres
  exact ⟨records, hand, e, h, henum, h.closed_iff (hreg.closed.wellFormed t m hm) hp he henum⟩

/-! ## An enum without zero

Gauges have readings by name. An entry without a value hands over zero, though the enum starts at
one. -/

namespace Gauge

def level : TypeId := ⟨"gauge::Level"⟩

def readings : TypeId := ⟨"gauge::Readings"⟩

/-- A closed enum without zero, and a message with a map of its values. -/
def environment : Environment :=
  [{ type := level, path := level.name
     kind := .enum [{ name := "Low", number := 1 }, { name := "High", number := 2 }] },
    .storing readings
      [({ name := "levels", kind := .field (.map (.scalar .int32) (.enum (.of level) false))
          getter := ·, number := some 1 })]]

def registry : Registry :=
  CompilationUnit.registry { fileName := "gauge.proto", requested := [.of readings] } environment

def levelsPlan : Plan where
  field :=
    ⟨1, "levels", .lengthDelimited, .map, .enum "Level", some .int32, none, false, false, none,
      none⟩
  element := .enum level false
  path := [0]

theorem exists_marshaller (input : Bytes)
    (h : input ∈ [[0x0A, 0x04, 0x08, 0x07, 0x10, 0x02], [0x0A, 0x02, 0x08, 0x07]]) :
    ∃ m i, registry.messageMarshaller? readings = some m ∧ m.plans = [levelsPlan] ∧
      (registry.decodeAt nestingLimit m input).result = .ok i := by
  have hall : ∀ bytes ∈ [[0x0A, 0x04, 0x08, 0x07, 0x10, 0x02], [0x0A, 0x02, 0x08, 0x07]],
      (registry.messageMarshaller? readings).map (fun m ↦
        (m.plans, (registry.decodeAt nestingLimit m bytes).result.toOption.isSome))
          = some ([levelsPlan], true) := by
    decide +kernel
  obtain ⟨m, hm, hall⟩ := Option.map_eq_some_iff.1 (hall input h)
  obtain ⟨hplans, hdecode⟩ := Prod.mk.inj hall
  obtain ⟨i, hi⟩ := isSome_toOption_iff.1 hdecode
  exact ⟨m, i, hm, hplans, hi⟩

end Gauge

/-- The law applies to an entry with a value. -/
theorem Gauge.closedEnum_handing_levels : ∃ m i, registry.messageMarshaller? readings = some m ∧
    (registry.decodeAt nestingLimit m [0x0A, 0x04, 0x08, 0x07, 0x10, 0x02]).result = .ok i ∧
    m.plans[0]? = some levelsPlan ∧
    ∃ records hand e, m.Decodes registry (registry.nestedAt nestingLimit)
      [0x0A, 0x04, 0x08, 0x07, 0x10, 0x02] records hand i ∧
      registry.enumMarshaller? level = some e ∧
      ((∀ v, hand levelsPlan.path = some v → ∀ n ∈ v.enumNumbers, e.isKnown n = true) ↔
        ((∃ r ∈ records, (∃ key v, r.2.change = some (0, .insert key v)) ∧
            levelsPlan.LacksValue registry (registry.nestedAt nestingLimit) r.1) →
          e.isKnown 0 = true) ∧
        (levelsPlan.field.cardinality = .optional → m.slot (records.map (·.2)) 0 = none →
          ∀ n, levelsPlan.defaultValue? = some (.enum n) → e.isKnown n = true)) := by
  obtain ⟨m, i, hm, hplans, hdecode⟩ :=
    exists_marshaller [0x0A, 0x04, 0x08, 0x07, 0x10, 0x02] (.head _)
  have hp : m.plans[0]? = some levelsPlan := by
    rw [hplans]
    rfl
  exact ⟨m, i, hm, hdecode, hp,
    closedEnum_handing_of_compiled (CompilationUnit.compiled_registry _ _) hm hdecode hp rfl⟩

/-- An entry without a value hands over zero, which the enum does not declare. -/
theorem Gauge.not_closed : registry.Compiled ∧ ∃ m i records hand e v,
    registry.messageMarshaller? readings = some m ∧ m.plans[0]? = some levelsPlan ∧
      (registry.decodeAt nestingLimit m [0x0A, 0x02, 0x08, 0x07]).result = .ok i ∧
      m.Decodes registry (registry.nestedAt nestingLimit) [0x0A, 0x02, 0x08, 0x07] records hand i ∧
      registry.enumMarshaller? level = some e ∧ hand levelsPlan.path = some v ∧
      0 ∈ v.enumNumbers ∧ e.isKnown 0 = false := by
  obtain ⟨m, i, hm, hplans, hdecode⟩ :=
    exists_marshaller [0x0A, 0x02, 0x08, 0x07] (.tail _ (.head _))
  have hunknown : (registry.enumMarshaller? level).map (·.isKnown 0) = some false := by
    decide +kernel
  obtain ⟨e, he, hunknown⟩ := Option.map_eq_some_iff.1 hunknown
  have hzero : ((registry.messageMarshaller? readings).bind fun m ↦
      (readAll (m.readRecord registry (registry.nestedAt nestingLimit))
        [0x0A, 0x02, 0x08, 0x07]).result.toOption.bind fun effects ↦
          (m.handing effects).toOption.bind fun hand ↦
            (hand [0]).map Value.enumNumbers) = some [0] := by
    decide +kernel
  rw [Registry.decodeAt_eq] at hdecode
  obtain ⟨records, hand, h⟩ := MessageMarshaller.decodeWith_eq_ok.1 hdecode
  rw [hm, Option.bind_some, readAll_eq_ok.2 ⟨records, h.reads, rfl⟩] at hzero
  have hzero : ((m.handing (records.map (·.2))).toOption.bind fun hand ↦
      (hand [0]).map Value.enumNumbers) = some [0] := hzero
  rw [h.hands] at hzero
  obtain ⟨v, hv, hnumbers⟩ := Option.map_eq_some_iff.1
    (show (hand [0]).map Value.enumNumbers = some [0] from hzero)
  refine ⟨CompilationUnit.compiled_registry _ _, m, i, records, hand, e, v, hm, ?_, ?_, h, he, hv,
    ?_, hunknown⟩
  · rw [hplans]
    rfl
  · rw [Registry.decodeAt_eq, hdecode]
  · rw [hnumbers]
    exact List.mem_cons_self

end ProtoSchema
