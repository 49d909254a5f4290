import ProtoSchema.Proofs.Codec.Assembly
import ProtoSchema.Proofs.Codec.Field
import ProtoSchema.Proofs.Codec.Stream

/-!
# Reading back messages

A message is written as one `Sending` for each of its plans, with the retained records behind them.
What any reader makes of a list of sendings is a function of what they fill, by field number: the
plans of the reader are handed `filledAt`, and the sendings of numbers that it does not declare are
retained. Both a round trip through one type and a detour through another are instances of this.
-/

set_option autoImplicit false

namespace ProtoSchema

open Wire

/-! ## Sendings

A sending is what became of one field: the bytes that stand for it, the records that these are, and
what a reader collects from them. Nothing in it depends on who reads, except that a reader with
another plan for the number has to agree with the one by which it was written. -/

/-- Distinct numbers and paths, plans that are sound and lead to fields: what compiling a type
makes sure of. -/
structure MessageMarshaller.WellFormed (m : MessageMarshaller) : Prop where
  plans : ∀ p ∈ m.plans, p.WellFormed
  numbers : m.HasDistinctNumbers
  paths : (m.plans.map (·.path)).Nodup
  fields : m.HasPaths

/-- A field that was written: its plan and value, the bytes and records that it was written as, and
the value that a reader collects from them. -/
structure Sending where
  plan : Plan
  value : Value
  bytes : Bytes
  sent : List Sent
  filled : Option Value

/-- The records of a sending are those of its field. -/
def Sending.Valid (reg : Registry) (nested : NestedReader) (R : Instance → Instance → Prop)
    (s : Sending) : Prop :=
  s.plan.Sends reg nested R s.value s.bytes s.sent s.filled

/-- What sendings fill for a field number. -/
def filledAt (sendings : List Sending) (number : Nat) : Option Value :=
  (sendings.find? (·.plan.field.number == number)).bind (·.filled)

/-- At most one member of a oneof is sent. -/
def Exclusive (sendings : List Sending) : Prop :=
  ∀ s ∈ sendings, ∀ t ∈ sendings, ∀ g, s.plan.field.oneof = some g →
    t.plan.field.oneof = some g → s.value.isAbsent = false → t.value.isAbsent = false →
      s.plan.field.number = t.plan.field.number

/-- The sendings whose fields a type does not declare. -/
def MessageMarshaller.unknownTo (m : MessageMarshaller) (sendings : List Sending) : List Sending :=
  sendings.filter fun s ↦ (m.plan? s.plan.field.number).isNone

/-- An instance was sent: one sending for each plan of its type, of the value that stands there. -/
structure MessageMarshaller.Sends (m : MessageMarshaller) (reg : Registry) (nested : NestedReader)
    (R : Instance → Instance → Prop) (x : Instance) (sendings : List Sending) : Prop where
  plans : sendings.map (·.plan) = m.plans
  valid : ∀ s ∈ sendings, s.Valid reg nested R
  get : ∀ s ∈ sendings, m.layout.get? x s.plan.path = some s.value

/-- The values that a factory is handed when `filled` is collected for the field numbers. -/
def MessageMarshaller.hand (m : MessageMarshaller) (filled : Nat → Option Value) :
    List Nat → Option Value :=
  valueAt (m.plans.zip (m.plans.map fun q ↦ filled q.field.number))

/-! ## Writing and reading

The records of different sendings bear different numbers, so what a reader collects for a field is
what the sending of that number fills. -/

section

variable {reg : Registry} {write : NestedWriter} {nested : NestedReader}
  {R : Instance → Instance → Prop} {m : MessageMarshaller} {sendings : List Sending}

/-- **Messages are written.** An instance whose members all fit is written, as a sending for each
plan with the retained bytes behind them. -/
theorem exists_sendings {x : Instance} (hm : m.WellFormed)
    (hres : ∀ p ∈ m.plans, p.element.Resolved reg) (hx : x.type = m.type)
    (hfit : ∀ p ∈ m.plans, ∃ v, m.layout.get? x p.path = some v ∧
      p.Fits reg (Trips reg write nested R) v) :
    ∃ b, m.encodeWith reg write x = .ok (b ++ (m.retained x).bytes) ∧
      (b.length < UInt64.size →
        ∃ sendings, sendings.flatMap (·.bytes) = b ∧ m.Sends reg nested R x sendings) := by
  obtain ⟨b, hb, hread⟩ := exists_writeAll (f := m.writePlan reg write x) (l := m.plans)
    (fun p b (s : Sending) ↦ s.plan = p ∧ s.bytes = b ∧ s.Valid reg nested R ∧
      m.layout.get? x p.path = some s.value) fun p hp ↦ by
    obtain ⟨v, hv, hfit⟩ := hfit p hp
    obtain ⟨b, hb, hread⟩ := exists_writeField m (hm.plans p hp) (hres p hp) hfit
    refine ⟨b, by rw [MessageMarshaller.writePlan, hv]; exact hb, fun hl ↦ ?_⟩
    obtain ⟨sent, o, hsends⟩ := hread hl
    exact ⟨⟨p, v, b, sent, o⟩, rfl, rfl, hsends, hv⟩
  refine ⟨b, ?_, fun hl ↦ ?_⟩
  · rw [MessageMarshaller.encodeWith, if_pos hx, hb, ok_bind, pure_eq_ok]
  · obtain ⟨parts, hparts, hall⟩ := hread hl
    have hparts' : ∀ s ∈ parts.map (·.2), s.Valid reg nested R ∧
        m.layout.get? x s.plan.path = some s.value := by
      intro s hs
      obtain ⟨part, hpart, rfl⟩ := List.mem_map.1 hs
      obtain ⟨p, -, rfl, -, hvalid, hv⟩ := exists_of_forall₂_right hall hpart
      exact ⟨hvalid, hv⟩
    refine ⟨parts.map (·.2), ?_, ?_, fun s hs ↦ (hparts' s hs).1, fun s hs ↦ (hparts' s hs).2⟩
    · rw [← hparts, List.flatMap_map]
      refine List.flatMap_congr fun part hpart ↦ ?_
      obtain ⟨p, -, -, h, -⟩ := exists_of_forall₂_right hall hpart
      exact h
    · rw [List.map_map, ← List.forall₂_eq_eq_eq, List.forall₂_map_left_iff]
      exact hall.flip.imp fun _ _ h ↦ h.1

theorem filledAt_of_mem (hn : (sendings.map (·.plan.field.number)).Nodup) {s : Sending}
    (hs : s ∈ sendings) : filledAt sendings s.plan.field.number = s.filled := by
  cases hf : sendings.find? (·.plan.field.number == s.plan.field.number) with
  | none =>
    have := List.find?_eq_none.1 hf s hs
    simp at this
  | some t =>
    have ht : t.plan.field.number = s.plan.field.number := by simpa using List.find?_some hf
    rw [filledAt, hf, Option.bind_some,
      List.inj_on_of_nodup_map hn (List.mem_of_find?_eq_some hf) hs ht]

theorem MessageMarshaller.WellFormed.hand_path (hm : m.WellFormed) {filled : Nat → Option Value}
    {p : Plan} (hp : p ∈ m.plans) : m.hand filled p.path = filled p.field.number := by
  rw [hand, ← List.map_prod_left_eq_zip]
  refine valueAt_of_mem ?_ (List.mem_map.2 ⟨p, hp, rfl⟩)
  rw [List.map_map]
  exact hm.paths

theorem MessageMarshaller.hand_congr {f g : Nat → Option Value}
    (h : ∀ p ∈ m.plans, f p.field.number = g p.field.number) : m.hand f = m.hand g := by
  rw [hand, hand, List.map_congr_left h]

theorem filter_sent (hvalid : ∀ s ∈ sendings, s.Valid reg nested R)
    (hn : (sendings.map (·.plan.field.number)).Nodup) {s : Sending} (hs : s ∈ sendings) :
    (sendings.flatMap (·.sent)).filter (·.plan.field.number == s.plan.field.number) = s.sent := by
  induction sendings with
  | nil => cases hs
  | cons t rest ih =>
    rw [List.map_cons, List.nodup_cons] at hn
    have hrest := fun s hs ↦ hvalid s (List.mem_cons_of_mem t hs)
    have hplan : ∀ u ∈ t :: rest, ∀ r ∈ u.sent, r.plan = u.plan :=
      fun u hu r hr ↦ (hvalid u hu).plan r hr
    rw [List.flatMap_cons, List.filter_append]
    rcases List.mem_cons.1 hs with rfl | hs
    · have hall : s.sent.filter (·.plan.field.number == s.plan.field.number) = s.sent := by
        rw [List.filter_eq_self]
        intro r hr
        rw [hplan s List.mem_cons_self r hr, beq_self_eq_true]
      have hnone : (rest.flatMap (·.sent)).filter (·.plan.field.number == s.plan.field.number)
          = [] := by
        rw [List.filter_eq_nil_iff]
        intro r hr
        obtain ⟨u, hu, hr⟩ := List.mem_flatMap.1 hr
        rw [hplan u (List.mem_cons_of_mem s hu) r hr, beq_iff_eq]
        exact fun h ↦ hn.1 (List.mem_map.2 ⟨u, hu, h⟩)
      rw [hall, hnone, List.append_nil]
    · have hnone : t.sent.filter (·.plan.field.number == s.plan.field.number) = [] := by
        rw [List.filter_eq_nil_iff]
        intro r hr
        rw [hplan t List.mem_cons_self r hr, beq_iff_eq]
        exact fun h ↦ hn.1 (List.mem_map.2 ⟨s, hs, h.symm⟩)
      rw [hnone, List.nil_append, ih hrest hn.2 hs]

theorem retains_sent (hvalid : ∀ s ∈ sendings, s.Valid reg nested R) :
    m.retains (sendings.flatMap (·.sent))
      = (m.unknownTo sendings).flatMap (·.bytes) := by
  rw [MessageMarshaller.retains, MessageMarshaller.unknownTo]
  induction sendings with
  | nil => rfl
  | cons t rest ih =>
    have ht := hvalid t List.mem_cons_self
    have hplan : ∀ r ∈ t.sent, r.plan = t.plan := ht.plan
    rw [List.flatMap_cons, List.filter_append, List.flatMap_append,
      ih fun s hs ↦ hvalid s (List.mem_cons_of_mem t hs)]
    cases hp : (m.plan? t.plan.field.number).isNone with
    | true =>
      have hall : t.sent.filter (fun r ↦ (m.plan? r.plan.field.number).isNone) = t.sent := by
        rw [List.filter_eq_self]
        intro r hr
        rw [hplan r hr, hp]
      rw [List.filter_cons_of_pos (by simpa using hp), List.flatMap_cons, hall, ht.bytes]
    | false =>
      have hnone : t.sent.filter (fun r ↦ (m.plan? r.plan.field.number).isNone) = [] := by
        rw [List.filter_eq_nil_iff]
        intro r hr
        rw [hplan r hr, hp]
        exact Bool.false_ne_true
      rw [List.filter_cons_of_neg (by simp [hp]), hnone, List.flatMap_nil, List.nil_append]

/-- **What a reader makes of sendings.** A reader whose plans are all among the sendings, and agree
with the plans that they were written by, hands its factories what the sendings fill. It retains
the sendings of other numbers and the retained records behind them. -/
theorem decodeWith_sendings (hm : m.WellFormed) (hvalid : ∀ s ∈ sendings, s.Valid reg nested R)
    (hn : (sendings.map (·.plan.field.number)).Nodup)
    (hagree : ∀ s ∈ sendings, ∀ q ∈ m.plans, q.field.number = s.plan.field.number →
      s.plan.Agrees q)
    (hcover : ∀ q ∈ m.plans, ∃ s ∈ sendings, s.plan.field.number = q.field.number)
    (hone : Exclusive sendings)
    {tail : Bytes} {rs : List Record} (htail : Records tail rs)
    (hrs : ∀ r ∈ rs, m.plan? r.number = none) :
    (m.decodeWith reg nested (sendings.flatMap (·.bytes) ++ tail)).result
      = (m.layout.assemble (m.hand (filledAt sendings)) []
          ⟨(m.unknownTo sendings).flatMap (·.bytes) ++ tail⟩).mapError .factory := by
  have hbytes : (sendings.flatMap (·.sent)).flatMap (·.bytes) = sendings.flatMap (·.bytes) := by
    rw [List.flatMap_assoc]
    refine List.flatMap_congr fun s hs ↦ (hvalid s hs).bytes
  have hsent : ∀ r ∈ sendings.flatMap (·.sent), ∃ s ∈ sendings, r ∈ s.sent ∧ r.plan = s.plan := by
    intro r hr
    obtain ⟨s, hs, hr⟩ := List.mem_flatMap.1 hr
    exact ⟨s, hs, hr, (hvalid s hs).plan r hr⟩
  have hpresent : ∀ s ∈ sendings, ∀ r ∈ s.sent, s.value.isAbsent = false := by
    intro s hs r hr
    rw [← Bool.not_eq_true]
    intro habs
    rw [(hvalid s hs).absent habs] at hr
    cases hr
  rw [← hbytes, ← retains_sent hvalid]
  refine MessageMarshaller.decodeWith_stream hm.numbers ?_ ?_ ?_ htail hrs ?_
  · intro r hr
    obtain ⟨s, hs, hr, -⟩ := hsent r hr
    exact (hvalid s hs).readable r hr
  · intro r hr k q hk
    obtain ⟨s, hs, -, he⟩ := hsent r hr
    obtain ⟨hget, hnum⟩ := MessageMarshaller.plan?_eq_some hk
    rw [he] at hnum ⊢
    exact hagree s hs q (List.mem_of_getElem? hget) hnum
  · intro r hr r' hr' g hg hg'
    obtain ⟨s, hs, hr, he⟩ := hsent r hr
    obtain ⟨t, ht, hr', he'⟩ := hsent r' hr'
    rw [he] at hg ⊢
    rw [he'] at hg' ⊢
    exact hone s hs t ht g hg hg' (hpresent s hs r hr) (hpresent t ht r' hr')
  · rw [List.forall₂_map_right_iff, List.forall₂_same]
    intro q hq
    obtain ⟨s, hs, hnum⟩ := hcover q hq
    rw [← hnum, filter_sent hvalid hn hs, filledAt_of_mem hn hs]
    exact (hvalid s hs).filled m q (hagree s hs q hq hnum.symm)

end

end ProtoSchema
