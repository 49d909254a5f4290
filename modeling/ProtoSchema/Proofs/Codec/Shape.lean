import Mathlib.Data.List.Induction
import ProtoSchema.Proofs.Codec.Change
import ProtoSchema.Proofs.Types.Factories

/-!
# Slots hold values of their fields' shapes

Whatever a record brings to a field is of the field's shape: scalars are of the kind that the reader
makes of them, enum elements are numbers, and nested messages are instances of the type that the
field refers to, provided that registered factories build instances of their own types. Zeros and
declared defaults are of the field's shape as well. So a slot that is filled holds such a value, and
it stays empty only for an optional field without a default whose records, if there were any, all
lost to a later one of another member of the oneof.
-/

set_option autoImplicit false

namespace ProtoSchema

open Wire

/-! ## Factories that build their own type -/

/-- The factory of every registered message type builds instances of the type for which it is
registered. -/
def Registry.BuildsOwn (reg : Registry) : Prop :=
  ∀ type m, reg.messageMarshaller? type = some m → m.layout.factory.Builds type

/-- Nested messages are read as instances of the type that was asked for. -/
def NestedReader.ReadsOwn (nested : NestedReader) (reg : Registry) : Prop :=
  ∀ type m frame i, reg.messageMarshaller? type = some m →
    (nested.run m frame).result = .ok i → i.type = type

theorem Registry.BuildsOwn.readsOwn {reg : Registry} (h : reg.BuildsOwn) (levels : Nat) :
    (reg.nestedAt levels).ReadsOwn reg := by
  intro type m frame i hm hi
  cases levels with
  | zero => cases hi
  | succ levels =>
    change (reg.decodeAt levels m frame).result = .ok i at hi
    rw [decodeAt_eq] at hi
    obtain ⟨records, hand, hdecodes⟩ := MessageMarshaller.decodeWith_eq_ok.1 hi
    obtain ⟨slots, -, hbuild⟩ := Layout.factory_of_assemble hdecodes.builds
    exact h type m hm _ i hbuild

/-! ## Values of a field's shape

The shape of a field is that of its elements, of lists of them or of maps. A change of one of these
three kinds keeps it. -/

/-- A value has the shape of an element. -/
def Element.Holds : Element → Value → Prop
  | scalar s, v => v.kind? = some s.kind
  | enum _ _, v => ∃ n, v = .enum n
  | message target, v => ∃ i : Instance, v = .message i ∧ i.type = target

theorem Element.Holds.isSingle {e : Element} {v : Value} (h : e.Holds v) :
    v.isAbsent = false ∧ (∀ vs, v ≠ .list vs) ∧ ∀ es, v ≠ .map es := by
  cases e with
  | scalar s => cases v <;> first | cases h | simp [Value.isAbsent]
  | enum target isOpen =>
    obtain ⟨n, rfl⟩ := h
    simp [Value.isAbsent]
  | message target =>
    obtain ⟨i, rfl, -⟩ := h
    simp [Value.isAbsent]

/-- A value has the shape of a field that is not left out. -/
def Plan.Holds (p : Plan) (v : Value) : Prop :=
  match p.field.cardinality with
  | .required | .optional => p.element.Holds v
  | .repeated => ∃ vs, v = .list vs ∧ ∀ a ∈ vs, p.element.Holds a
  | .map =>
    ∃ es, v = .map es ∧ ∀ e ∈ es,
      e.1.kind? = some (p.field.mapKey.getD .string).kind ∧ p.element.Holds e.2

section

variable {reg : Registry} {nested : NestedReader} {p : Plan} {v : Value}

theorem Plan.Accepts.holds (hnested : nested.ReadsOwn reg) (h : p.Accepts reg nested v) :
    p.element.Holds v := by
  obtain ⟨input, rest, h⟩ := h
  have hread := readElement_eq_ok h
  generalize p.element = element at hread ⊢
  cases hread with
  | scalar hread => exact (Scalar.exists_payload_of_read hread).1
  | openEnum | closedEnum => exact ⟨_, rfl⟩
  | message _ hm hi => exact ⟨_, rfl, hnested _ _ _ _ hm hi⟩

theorem Element.holds_of_zero (hnested : nested.ReadsOwn reg)
    (h : (zeroElement reg nested p).result = .ok v) : p.element.Holds v := by
  unfold zeroElement at h
  cases he : p.element with
  | scalar s =>
    rw [he] at h
    cases h
    exact s.kind?_zero
  | enum target isOpen =>
    rw [he] at h
    cases h
    exact ⟨0, rfl⟩
  | message target =>
    rw [he] at h
    obtain ⟨m, hm, h⟩ := Logged.bind_eq_ok.1 h
    obtain ⟨i, hi, h⟩ := Logged.bind_eq_ok.1 h
    cases h
    exact ⟨i, rfl, hnested target m [] i (Registry.elementMarshaller_eq_ok hm) hi⟩

theorem Element.holds_of_defaultValue? {e : Element} {d : DefaultValue}
    (h : e.defaultValue? d = some v) : e.Holds v := by
  cases e with
  | scalar s => cases s <;> cases d <;> cases h <;> rfl
  | enum target isOpen =>
    cases d <;> cases h
    exact ⟨_, rfl⟩
  | message target => cases d <;> cases h

namespace Plan

theorem holds_of_element (hc : p.field.cardinality = .required ∨ p.field.cardinality = .optional)
    (h : p.element.Holds v) : p.Holds v := by
  unfold Holds
  rcases hc with hc | hc <;> rwa [hc]

theorem holds_list_iff (hc : p.field.cardinality = .repeated) :
    p.Holds v ↔ ∃ vs, v = .list vs ∧ ∀ a ∈ vs, p.element.Holds a := by
  simp only [Holds, hc]

theorem holds_map_iff (hc : p.field.cardinality = .map) :
    p.Holds v ↔ ∃ es, v = .map es ∧ ∀ e ∈ es,
      e.1.kind? = some (p.field.mapKey.getD .string).kind ∧ p.element.Holds e.2 := by
  simp only [Holds, hc]

theorem holds_on_append (hc : p.field.cardinality = .repeated) {vs : List Value}
    (hvs : ∀ v ∈ vs, p.element.Holds v) {slot : Option Value}
    (hslot : ∀ w, slot = some w → p.Holds w) :
    ∀ w, (Change.append vs).on slot = some w → p.Holds w := by
  intro w hw
  rw [holds_list_iff hc]
  unfold Change.on at hw
  dsimp only at hw
  split at hw
  · next old =>
    obtain ⟨_, heq, hold⟩ := (holds_list_iff hc).1 (hslot _ rfl)
    cases heq
    cases hw
    exact ⟨_, rfl, fun a ha ↦ (List.mem_append.1 ha).elim (hold a) (hvs a)⟩
  · cases hw
    exact ⟨vs, rfl, hvs⟩

theorem holds_on_insert (hc : p.field.cardinality = .map) {key v : Value}
    (hkey : key.kind? = some (p.field.mapKey.getD .string).kind) (hv : p.element.Holds v)
    {slot : Option Value} (hslot : ∀ w, slot = some w → p.Holds w) :
    ∀ w, (Change.insert key v).on slot = some w → p.Holds w := by
  intro w hw
  rw [holds_map_iff hc]
  have hone : ∀ e ∈ [(key, v)], e.1.kind? = some (p.field.mapKey.getD .string).kind ∧
      p.element.Holds e.2 := by
    rw [List.forall_mem_singleton]
    exact ⟨hkey, hv⟩
  unfold Change.on at hw
  dsimp only at hw
  split at hw
  · next old =>
    obtain ⟨_, heq, hold⟩ := (holds_map_iff hc).1 (hslot _ rfl)
    cases heq
    cases hw
    exact ⟨_, rfl, fun e he ↦ (List.mem_append.1 he).elim (hold e) (hone e)⟩
  · cases hw
    exact ⟨_, rfl, hone⟩

/-- Whatever a record brings, a slot that holds a value of the field's shape, or nothing, holds one
afterwards. -/
theorem Brings.holds_on (hnested : nested.ReadsOwn reg) {input : Bytes} {c : Change}
    (h : p.Brings reg nested input c) {slot : Option Value}
    (hslot : ∀ w, slot = some w → p.Holds w) : ∀ w, c.on slot = some w → p.Holds w := by
  cases h with
  | set hc hv =>
    rintro w ⟨⟩
    exact holds_of_element hc (hv.holds hnested)
  | append hc hvs => exact holds_on_append hc (fun v hv ↦ (hvs v hv).holds hnested) hslot
  | insert hc _ hv hkey => exact holds_on_insert hc hkey (hv.holds hnested) hslot
  | insertZero hc _ hv hkey =>
    exact holds_on_insert hc hkey (Element.holds_of_zero hnested hv) hslot

end Plan

end

/-! ## Slots

The effects of an input are followed from its end. The last one that concerns a field decides
whether its slot is empty, and all of them keep the shape of what it holds. -/

namespace MessageMarshaller

variable {m : MessageMarshaller} {k : Nat} {effects : List Effect}

/-- Nothing is left of the accepted records of a field: none came, or a later one set another member
of its oneof. -/
def Clears (m : MessageMarshaller) (effects : List Effect) (k : Nat) : Prop :=
  ∀ before e after c, effects = before ++ e :: after → e.change = some (k, c) →
    ∃ e' ∈ after, ∃ i v, e'.change = some (i, .set v) ∧ i ≠ k ∧ Draft.exclude m i k = true

theorem clears_append_singleton {es : List Effect} {e : Effect} :
    m.Clears (es ++ [e]) k ↔ (∀ c, e.change ≠ some (k, c)) ∧ (m.Clears es k ∨
      ∃ i v, e.change = some (i, .set v) ∧ i ≠ k ∧ Draft.exclude m i k = true) := by
  constructor
  · intro h
    refine ⟨fun c hc ↦ ?_, ?_⟩
    · obtain ⟨e', he', -⟩ := h es e [] c rfl hc
      cases he'
    · by_cases hclear : ∃ i v, e.change = some (i, .set v) ∧ i ≠ k ∧ Draft.exclude m i k = true
      · exact .inr hclear
      · refine .inl fun before e₀ after c hes hc ↦ ?_
        obtain ⟨e', he', hcleared⟩ := h before e₀ (after ++ [e]) c (by simp [hes]) hc
        rcases List.mem_append.1 he' with he' | he'
        · exact ⟨e', he', hcleared⟩
        · rw [List.mem_singleton.1 he'] at hcleared
          exact absurd hcleared hclear
  · rintro ⟨hne, h⟩ before e₀ after c hes hc
    rcases List.eq_nil_or_concat' after with rfl | ⟨after, last, rfl⟩
    · obtain ⟨-, heq⟩ := List.append_inj' hes rfl
      cases heq
      exact absurd hc (hne c)
    · rw [← List.cons_append, ← List.append_assoc] at hes
      obtain ⟨rfl, heq⟩ := List.append_inj' hes rfl
      cases heq
      rcases h with h | hcleared
      · obtain ⟨e', he', hcleared⟩ := h before e₀ after c rfl hc
        exact ⟨e', List.mem_append_left _ he', hcleared⟩
      · exact ⟨e, List.mem_append_right _ List.mem_cons_self, hcleared⟩

theorem on_ne_none (c : Change) (slot : Option Value) : c.on slot ≠ none := by
  unfold Change.on
  split
  · exact Option.some_ne_none _
  · split <;> exact Option.some_ne_none _
  · split <;> exact Option.some_ne_none _

/-- **A slot is empty exactly if nothing is left of the accepted records of its field.** -/
theorem slot_eq_none_iff : m.slot effects k = none ↔ m.Clears effects k := by
  induction effects using List.reverseRecOn with
  | nil => exact ⟨fun _ before e after c h ↦ by simp at h, fun _ ↦ rfl⟩
  | append_singleton es e ih =>
    rw [clears_append_singleton, slot_append_singleton]
    cases hc : e.change with
    | none =>
      rw [Draft.slotAfter_of_none hc, ih]
      simp
    | some change =>
      obtain ⟨j, c⟩ := change
      by_cases hjk : j = k
      · subst hjk
        rw [Draft.slotAfter_of_eq hc]
        exact ⟨fun h ↦ absurd h (on_ne_none c _), fun h ↦ absurd rfl (h.1 c)⟩
      · by_cases hclear : Draft.exclude m j k = true ∧ ∃ v, c = .set v
        · obtain ⟨hx, v, rfl⟩ := hclear
          have hnone : Draft.slotAfter m k (m.slot es k) e = none := by
            rw [Draft.slotAfter, hc]
            simp only [if_neg hjk, if_pos hx]
          rw [hnone]
          exact ⟨fun _ ↦ ⟨by simp [hjk], .inr ⟨j, v, rfl, hjk, hx⟩⟩, fun _ ↦ rfl⟩
        · rw [(Draft.slotAfter_of_ne hc hjk).resolve_right fun h ↦ hclear h.2, ih]
          constructor
          · exact fun h ↦ ⟨by simp [hjk], .inl h⟩
          · rintro ⟨-, h | ⟨i, v, heq, -, hx⟩⟩
            · exact h
            · cases heq
              exact absurd ⟨hx, v, rfl⟩ hclear

variable {reg : Registry} {nested : NestedReader} {input : Bytes} {records : List (Bytes × Effect)}
  {p : Plan}

theorem holds_of_slot (hnested : nested.ReadsOwn reg)
    (hreads : ReadTrace (m.readRecord reg nested) input records) (hp : m.plans[k]? = some p) :
    ∀ v, m.slot (records.map (·.2)) k = some v → p.Holds v := by
  refine slot_induction fun e he c hc slot hslot ↦ ?_
  obtain ⟨r, hr, rfl⟩ := List.mem_map.1 he
  obtain ⟨rest, hstep⟩ := hreads.step_of_mem hr
  obtain ⟨q, hq, hbrings⟩ := brings_of_readRecord hstep hc
  obtain rfl := Option.some.inj (hp.symm.trans hq)
  exact hbrings.holds_on hnested hslot

theorem holds_of_fill (hp : p.WellFormed) {slot hand : Option Value}
    (hslot : ∀ v, slot = some v → p.Holds v) (h : m.fill p slot = .ok hand) :
    (∀ v, hand = some v → p.Holds v) ∧ (hand = none → slot = none ∧
      p.field.cardinality = .optional ∧ p.field.default = none) := by
  unfold fill at h
  split at h
  · next v =>
    cases h
    exact ⟨hslot, fun h ↦ by cases h⟩
  · split at h
    · next hc =>
      cases h
      refine ⟨?_, fun h ↦ by cases h⟩
      rintro v ⟨⟩
      exact (p.holds_list_iff hc).2 ⟨[], rfl, fun a ha ↦ absurd ha List.not_mem_nil⟩
    · next hc =>
      cases h
      refine ⟨?_, fun h ↦ by cases h⟩
      rintro v ⟨⟩
      exact (p.holds_map_iff hc).2 ⟨[], rfl, fun e he ↦ absurd he List.not_mem_nil⟩
    · cases h
    · next hc =>
      cases h
      refine ⟨fun v hv ↦ ?_, fun hnone ↦ ⟨rfl, hc, hp.default_eq_none hnone⟩⟩
      obtain ⟨d, -, hd⟩ := Option.bind_eq_some_iff.1 hv
      exact p.holds_of_element (.inr hc) (Element.holds_of_defaultValue? hd)

/-- **What a field is handed.** The value that a factory is handed for a field is of the field's
shape, and there is one unless the field is optional, declares no default and has no accepted record
left. -/
theorem holds_of_handing (hm : m.WellFormed) (hnested : nested.ReadsOwn reg)
    (hreads : ReadTrace (m.readRecord reg nested) input records) {hand : List Nat → Option Value}
    (hhand : m.handing (records.map (·.2)) = .ok hand) (hp : m.plans[k]? = some p) :
    (∀ v, hand p.path = some v → p.Holds v) ∧ (hand p.path = none →
      p.field.cardinality = .optional ∧ p.field.default = none ∧
        m.Clears (records.map (·.2)) k) := by
  have hfill := fill_of_handing hm hhand hp
  obtain ⟨hholds, hnone⟩ := holds_of_fill (hm.plans p (List.mem_of_getElem? hp))
    (holds_of_slot hnested hreads hp) hfill
  refine ⟨hholds, fun h ↦ ?_⟩
  obtain ⟨hslot, hc, hd⟩ := hnone h
  exact ⟨hc, hd, slot_eq_none_iff.1 hslot⟩

end MessageMarshaller

end ProtoSchema
