import Mathlib.Data.List.Nodup
import ProtoSchema.Proofs.Codec.Draft
import ProtoSchema.Proofs.Codec.Sent

/-!
# Decoding streams of sent records

A message on the wire is a list of sent records followed by retained ones. Decoding it gives, for
each plan of the reader, what the records of that field collect to, wherever they stand between the
others; what belongs to no plan is retained in the order in which it came. That the order of
different fields does not matter is therefore not a separate argument: the filled value of a plan
is stated in terms of the records with its number alone.

The one way in which fields interfere is a oneof, so the records of a stream are asked to belong to
at most one member of each.
-/

set_option autoImplicit false

namespace ProtoSchema

open Wire

namespace MessageMarshaller

variable {m : MessageMarshaller}

/-! ## Finding plans -/

/-- The numbers of the plans tell them apart. -/
def HasDistinctNumbers (m : MessageMarshaller) : Prop :=
  (m.plans.map (·.field.number)).Nodup

theorem plan?_eq_some {n k : Nat} {q : Plan} (h : m.plan? n = some (k, q)) :
    m.plans[k]? = some q ∧ q.field.number = n := by
  obtain ⟨i, hi, hq⟩ := Option.bind_eq_some_iff.1 h
  obtain ⟨q', hq', he⟩ := Option.map_eq_some_iff.1 hq
  cases he
  refine ⟨hq', ?_⟩
  obtain ⟨hlt, hn, -⟩ := List.findIdx?_eq_some_iff_getElem.1 hi
  rw [List.getElem?_eq_getElem hlt] at hq'
  cases hq'
  exact eq_of_beq hn

theorem plan?_eq_none {n : Nat} (h : m.plan? n = none) {q : Plan} (hq : q ∈ m.plans) :
    q.field.number ≠ n := by
  intro hn
  obtain ⟨i, hi⟩ : ∃ i, m.planIndex? n = some i := by
    rw [← Option.isSome_iff_exists, planIndex?, List.findIdx?_isSome, List.any_eq_true]
    exact ⟨q, hq, beq_iff_eq.2 hn⟩
  obtain ⟨hlt, -⟩ := List.findIdx?_eq_some_iff_getElem.1 hi
  rw [plan?, hi, Option.bind_some, List.getElem?_eq_getElem hlt] at h
  cases h

theorem plan?_eq_none_of_forall {n : Nat} (h : ∀ q ∈ m.plans, q.field.number ≠ n) :
    m.plan? n = none := by
  cases hp : m.plan? n with
  | none => rfl
  | some found =>
    obtain ⟨k, q⟩ := found
    obtain ⟨hk, hn⟩ := plan?_eq_some hp
    exact absurd hn (h q (List.mem_of_getElem? hk))

theorem plan?_of_getElem? (hm : m.HasDistinctNumbers) {k : Nat} {q : Plan}
    (h : m.plans[k]? = some q) : m.plan? q.field.number = some (k, q) := by
  cases hp : m.plan? q.field.number with
  | none => exact absurd rfl (plan?_eq_none hp (List.mem_of_getElem? h))
  | some found =>
    obtain ⟨i, q'⟩ := found
    obtain ⟨hi, hn⟩ := plan?_eq_some hp
    have hget : ∀ {j : Nat} {p : Plan}, m.plans[j]? = some p →
        (m.plans.map (·.field.number))[j]? = some p.field.number := by
      intro j p hj
      rw [List.getElem?_map, hj, Option.map_some]
    have hlt : i < (m.plans.map (·.field.number)).length := by
      rw [List.length_map]
      exact (List.getElem?_eq_some_iff.1 hi).1
    have hik : i = k := (List.getElem?_inj hlt hm).1 (by rw [hget hi, hget h, hn])
    subst hik
    rw [hi] at h
    cases h
    rfl

theorem HasDistinctNumbers.eq_of_number (hm : m.HasDistinctNumbers) {p q : Plan}
    (hp : p ∈ m.plans) (hq : q ∈ m.plans) (h : p.field.number = q.field.number) : p = q :=
  List.inj_on_of_nodup_map hm hp hq h

/-! ## Effects of a stream

Sent records have the same effect on every reader that declares their number, and are retained by
the others. The effects at one plan are those of the records with its number. -/

/-- What a reader makes of a sent record. -/
def effectOf (m : MessageMarshaller) (s : Sent) : Effect :=
  match m.plan? s.plan.field.number with
  | some (k, _) => { change := some (k, s.change) }
  | none => { retained := s.bytes }

/-- The bytes of a stream that a reader retains. -/
def retains (m : MessageMarshaller) (stream : List Sent) : Bytes :=
  (stream.filter fun s ↦ (m.plan? s.plan.field.number).isNone).flatMap (·.bytes)

variable {reg : Registry} {nested : NestedReader} {stream : List Sent}

theorem readsAll_stream (hread : ∀ s ∈ stream, s.Readable reg nested)
    (hagree : ∀ s ∈ stream, ∀ k q, m.plan? s.plan.field.number = some (k, q) → s.plan.Agrees q) :
    ReadsAll (m.readRecord reg nested) (stream.flatMap (·.bytes)) (stream.map m.effectOf) := by
  refine ReadsAll.flatMap fun s hs ↦ ?_
  have hr := hread s hs
  refine .single hr.ne_nil ?_
  cases hp : m.plan? s.plan.field.number with
  | none =>
    have he : m.effectOf s = { retained := s.bytes } := by rw [effectOf, hp]
    rw [he]
    exact hr.unknown m hp
  | some found =>
    obtain ⟨k, q⟩ := found
    have he : m.effectOf s = { change := some (k, s.change) } := by rw [effectOf, hp]
    rw [he]
    exact hr.known m k q hp (hagree s hs k q hp)

theorem readAll_records {tail : Bytes} {rs : List Record} (h : Records tail rs)
    (hm : ∀ r ∈ rs, m.plan? r.number = none) :
    ∃ effects, (readAll (m.readRecord reg nested) tail).result = .ok effects ∧
      (∀ e ∈ effects, e.change = none) ∧ effects.flatMap (·.retained) = tail := by
  induction h with
  | nil => exact ⟨[], readAll_nil _, fun e he ↦ absurd he List.not_mem_nil, rfl⟩
  | @cons input rest r rs head _ ih =>
    obtain ⟨effects, hall, hnone, hbytes⟩ := ih fun r hr ↦ hm r (List.mem_cons_of_mem _ hr)
    have hstep : (m.readRecord reg nested input).result = _ :=
      m.readRecord_unknown head (hm r List.mem_cons_self)
    refine ⟨{ retained := consumed input rest } :: effects, ?_, ?_, ?_⟩
    · rw [readAll_step (Record.decode_length head) hstep, hall, map_ok]
    · intro e he
      rcases List.mem_cons.1 he with rfl | he
      · rfl
      · exact hnone e he
    · obtain ⟨chunk, rfl⟩ := Record.local_decode.suffix head
      rw [List.flatMap_cons, hbytes, consumed_append]

theorem plan?_of_effectOf {s : Sent} {i : Nat} {c : Change}
    (h : (m.effectOf s).change = some (i, c)) :
    ∃ q, m.plan? s.plan.field.number = some (i, q) := by
  rw [effectOf] at h
  split at h
  · next k q hk =>
    cases h
    exact ⟨q, hk⟩
  · cases h

theorem changesAt_stream (hm : m.HasDistinctNumbers) {j : Nat} {q : Plan}
    (hq : m.plans[j]? = some q) (stream : List Sent) :
    changesAt j (stream.map m.effectOf)
      = (stream.filter (·.plan.field.number == q.field.number)).map (·.change) := by
  induction stream with
  | nil => rfl
  | cons s rest ih =>
    rw [List.map_cons]
    by_cases hn : s.plan.field.number = q.field.number
    · have he : (m.effectOf s).change = some (j, s.change) := by
        rw [effectOf, hn, plan?_of_getElem? hm hq]
      rw [Draft.changesAt_cons_of_eq he, List.filter_cons_of_pos (by simpa using hn),
        List.map_cons, ih]
    · have he : ∀ c, (m.effectOf s).change ≠ some (j, c) := by
        intro c hc
        obtain ⟨q', hk⟩ := plan?_of_effectOf hc
        obtain ⟨hk, hn'⟩ := plan?_eq_some hk
        rw [hq] at hk
        cases hk
        exact hn hn'.symm
      rw [Draft.changesAt_cons_of_ne he, List.filter_cons_of_neg (by simpa using hn), ih]

theorem retained_stream (stream : List Sent) :
    (stream.map m.effectOf).flatMap (·.retained) = m.retains stream := by
  rw [retains, List.flatMap_map]
  induction stream with
  | nil => rfl
  | cons s rest ih =>
    rw [List.flatMap_cons, ih]
    cases hp : m.plan? s.plan.field.number with
    | none =>
      rw [List.filter_cons_of_pos (by simp [hp]), List.flatMap_cons]
      simp only [effectOf, hp]
    | some found =>
      rw [List.filter_cons_of_neg (by simp [hp])]
      simp only [effectOf, hp, List.nil_append]

theorem changesAt_of_change_none {j : Nat} {effects : List Effect}
    (h : ∀ e ∈ effects, e.change = none) : changesAt j effects = [] := by
  rw [changesAt, List.filterMap_eq_nil_iff]
  intro e he
  rw [h e he, Option.bind_none]

theorem foldl_slotAfter_stream (hm : m.HasDistinctNumbers) {j : Nat} {q : Plan}
    (hq : m.plans[j]? = some q)
    (hagree : ∀ s ∈ stream, ∀ k q, m.plan? s.plan.field.number = some (k, q) → s.plan.Agrees q)
    (hone : ∀ s ∈ stream, ∀ t ∈ stream, ∀ g, s.plan.field.oneof = some g →
      t.plan.field.oneof = some g → s.plan.field.number = t.plan.field.number)
    {others : List Effect} (hothers : ∀ e ∈ others, e.change = none) :
    (stream.map m.effectOf ++ others).foldl (Draft.slotAfter m j) none
      = collect ((stream.filter (·.plan.field.number == q.field.number)).map (·.change)) := by
  have hat : changesAt j (stream.map m.effectOf ++ others)
      = (stream.filter (·.plan.field.number == q.field.number)).map (·.change) := by
    rw [Draft.changesAt_append, changesAt_stream hm hq, changesAt_of_change_none hothers,
      List.append_nil]
  by_cases hnil : changesAt j (stream.map m.effectOf ++ others) = []
  · rw [Draft.foldl_slotAfter_of_changesAt_nil hnil, ← hat, hnil]
    rfl
  · -- Some record is of this field, so no record is of another member of its oneof.
    obtain ⟨s, hs, hsn⟩ : ∃ s ∈ stream, s.plan.field.number = q.field.number := by
      rw [hat, List.map_eq_nil_iff, List.filter_eq_nil_iff] at hnil
      simpa using hnil
    have hsq := (hagree s hs j q (hsn ▸ plan?_of_getElem? hm hq)).oneof
    rw [Draft.foldl_slotAfter_of_exclusive, hat]
    · rfl
    · intro e he i v hc hx
      rcases List.mem_append.1 he with he | he
      · obtain ⟨t, ht, rfl⟩ := List.mem_map.1 he
        obtain ⟨q', hk⟩ := plan?_of_effectOf hc
        obtain ⟨p, q'', g, hp, hq'', hpg, hqg⟩ := Draft.exclude_eq_true.1 hx
        rw [(plan?_eq_some hk).1] at hp
        rw [hq] at hq''
        cases hp
        cases hq''
        have htn := hone t ht s hs g ((hagree t ht i q' hk).oneof ▸ hpg) (hsq ▸ hqg)
        rw [htn, hsn, plan?_of_getElem? hm hq] at hk
        cases hk
        rfl
      · rw [hothers e he] at hc
        cases hc

/-- **Streams are decoded field by field.** If the records of each plan's number collect to a value,
decoding the stream builds the instance of these values, whatever the order of the fields. -/
theorem decodeWith_stream (hm : m.HasDistinctNumbers)
    (hread : ∀ s ∈ stream, s.Readable reg nested)
    (hagree : ∀ s ∈ stream, ∀ k q, m.plan? s.plan.field.number = some (k, q) → s.plan.Agrees q)
    (hone : ∀ s ∈ stream, ∀ t ∈ stream, ∀ g, s.plan.field.oneof = some g →
      t.plan.field.oneof = some g → s.plan.field.number = t.plan.field.number)
    {tail : Bytes} {rs : List Record} (htail : Records tail rs)
    (hrs : ∀ r ∈ rs, m.plan? r.number = none) {values : List (Option Value)}
    (hfill : List.Forall₂ (fun q o ↦ m.fill q (collect
      ((stream.filter (·.plan.field.number == q.field.number)).map (·.change))) = .ok o)
      m.plans values) :
    (m.decodeWith reg nested (stream.flatMap (·.bytes) ++ tail)).result
      = (m.layout.assemble (valueAt (m.plans.zip values)) []
          ⟨m.retains stream ++ tail⟩).mapError .factory := by
  obtain ⟨others, hothers, hnone, hbytes⟩ :
      ∃ effects, (readAll (m.readRecord reg nested) tail).result = .ok effects ∧ _ :=
    readAll_records htail hrs
  have hall : (readAll (m.readRecord reg nested) (stream.flatMap (·.bytes) ++ tail)).result
      = .ok (stream.map m.effectOf ++ others) := by
    rw [readsAll_stream hread hagree, hothers, map_ok]
  have hunknown : ((stream.map m.effectOf ++ others).foldl (Draft.apply m) (.empty m)).unknown
      = ⟨m.retains stream ++ tail⟩ := by
    have hb := Draft.unknown_foldl (m := m) (.empty m) (stream.map m.effectOf ++ others)
    rw [List.flatMap_append, retained_stream, hbytes] at hb
    exact congrArg UnknownFields.mk hb
  have hvalues : ((m.plans.zip ((stream.map m.effectOf ++ others).foldl (Draft.apply m)
      (.empty m)).slots).mapM fun e ↦ m.fill e.1 e.2) = .ok values := by
    rw [mapM_eq_ok, Draft.slots_foldl, List.forall₂_iff_get]
    have hlen := hfill.length_eq
    refine ⟨by simp [hlen], fun j h₁ h₂ ↦ ?_⟩
    have hj : j < m.plans.length := hlen ▸ h₂
    have hslot := foldl_slotAfter_stream hm (List.getElem?_eq_getElem hj) hagree hone hnone
    have hget : (m.plans.zip (m.plans.mapIdx fun j _ ↦
        (stream.map m.effectOf ++ others).foldl (Draft.slotAfter m j) none)).get ⟨j, h₁⟩
          = (m.plans[j], (stream.map m.effectOf ++ others).foldl (Draft.slotAfter m j) none) := by
      simp only [List.get_eq_getElem, List.getElem_zip, List.getElem_mapIdx]
    rw [hget, hslot]
    exact (List.forall₂_iff_get.1 hfill).2 j hj h₂
  rw [Draft.result_decodeWith, hall, ok_bind, Draft.result_finish, hvalues, ok_bind, hunknown]

end MessageMarshaller

end ProtoSchema
