import ProtoSchema.Proofs.Codec.Accepting
import ProtoSchema.Proofs.Codec.Entries
import ProtoSchema.Proofs.Codec.LastValue
import ProtoSchema.Proofs.Codec.Packing

/-!
# Plain messages

A message is plain if each of its fields is a single scalar that may be left out, or a list of
numbers. What decoding makes of such a message can be said by its records alone. It reads an input
exactly if the input is made up of records and those with declared numbers hold what their fields
hold, and nothing but the wire can keep it from doing so. A single field is then handed what the
last record of its number stands for, and a list all the elements that stand in its records, be they
runs or elements on their own.
-/

set_option autoImplicit false

namespace ProtoSchema

open Wire

/-- A field is a single scalar that may be left out, or a list of numbers. -/
structure Plan.IsPlain (p : Plan) : Prop where
  element : ∃ s, p.element = .scalar s
  cardinality : p.field.cardinality = .optional ∨
    p.field.cardinality = .repeated ∧ p.element.wireType ≠ .lengthDelimited
  default : p.field.default = none
  oneof : p.field.oneof = none

/-- All fields of a message are plain. -/
def MessageMarshaller.IsPlain (m : MessageMarshaller) : Prop := ∀ p ∈ m.plans, p.IsPlain

/-- A payload can be read for a field: it stands for an element, or in a list for a run of them. -/
def Plan.Takes (p : Plan) (payload : Payload) : Prop :=
  if p.field.cardinality = .repeated then p.HoldsElements payload
  else ∃ v, p.element.valueOf? payload = some v

/-- A record of a declared number can be read for its field. -/
def MessageMarshaller.Takes (m : MessageMarshaller) (r : Record) : Prop :=
  ∀ k p, m.plan? r.number = some (k, p) → p.Takes r.payload

/-- The payloads that stand in a record as elements of a list: those of a run, or its own. -/
def elementsIn (w : WireType) (r : Record) : List Payload :=
  match r.payload with
  | .bytes run => (split (Payload.decode w) run).map (·.2)
  | payload => [payload]

/-- The elements of the list with a number, in order. -/
def elementsOf (w : WireType) (number : Nat) (rs : List Record) : List Payload :=
  (rs.filter (·.number == number)).flatMap (elementsIn w)

/-- What the records of a plain message hand over for its fields. -/
structure MessageMarshaller.Hands (m : MessageMarshaller) (rs : List Record)
    (hand : List Nat → Option Value) : Prop where
  single : ∀ p ∈ m.plans, p.field.cardinality = .optional →
    hand p.path = (ProtoSchema.lastOf? p.field.number rs).bind fun r ↦ p.element.valueOf? r.payload
  list : ∀ p ∈ m.plans, p.field.cardinality = .repeated → ∃ vs, hand p.path = some (.list vs) ∧
    List.Forall₂ (fun payload v ↦ p.element.valueOf? payload = some v)
      (elementsOf p.element.wireType p.field.number rs) vs

/-! ## Elements of plain fields

Scalars refer to no type and declare all their values. So what is read of a plain field depends on
the payload alone. -/

variable {reg : Registry} {nested : NestedReader} {m : MessageMarshaller} {p : Plan} {k : Nat}
  {input rest : Bytes} {effects : List Effect} {r : Record} {rs : List Record} {payload : Payload}
  {v : Value}

namespace Plan.IsPlain

theorem resolved (h : p.IsPlain) : p.element.Resolved reg := by
  obtain ⟨s, hs⟩ := h.element
  rw [hs]
  trivial

theorem undeclared?_eq (h : p.IsPlain) (v : Value) : p.undeclared? reg v = none := by
  obtain ⟨s, hs⟩ := h.element
  simp only [undeclared?, hs]

theorem acceptedOf_eq (h : p.IsPlain) (vs : List Value) : p.acceptedOf reg vs = vs := by
  rw [acceptedOf, List.filter_eq_self]
  intro v _
  rw [h.undeclared?_eq]
  rfl

theorem exists_payload (h : p.IsPlain) {reading : Reading}
    (hread : (readElement reg nested p input).result = .ok (reading, rest)) :
    ∃ payload v, Payload.decode p.element.wireType input = .ok (payload, rest) ∧
      p.element.valueOf? payload = some v ∧ reading = .accepted v := by
  obtain ⟨s, hs⟩ := h.element
  have hreads := readElement_eq_ok hread
  rw [hs] at hreads ⊢
  cases hreads with
  | scalar hscalar =>
    obtain ⟨payload, hpayload, hv⟩ := Scalar.read_eq_ok.1 hscalar
    exact ⟨payload, _, hpayload, hv, rfl⟩

theorem exists_run (h : p.IsPlain) {run : Bytes} {readings : List Reading}
    (hread : (readAll (readElement reg nested p) run).result = .ok readings) :
    ∃ payloads, Run p.element.wireType run payloads := by
  obtain ⟨trace, htrace, rfl⟩ := readAll_eq_ok.1 hread
  clear hread
  induction htrace with
  | nil => exact ⟨[], .nil⟩
  | cons head _ _ ih =>
    obtain ⟨payload, v, hpayload, -⟩ := h.exists_payload head
    obtain ⟨payloads, hrun⟩ := ih
    exact ⟨payload :: payloads, .cons hpayload hrun⟩
  | last _ head hlt =>
    obtain ⟨payload, v, hpayload, -⟩ := h.exists_payload head
    exact absurd (Payload.decode_length hpayload) hlt

end Plan.IsPlain

/-! ## Reading

Each record is read exactly if it can be taken, and it is all records that are read or none. -/

/-- Two readings come to the same, and only the wire can keep them from succeeding. -/
def SameOnWire {α : Type} (x x' : Except DecodeError α) : Prop :=
  x' = x ∧ ∀ e, x = .error e → ∃ w, e = .wire w

theorem compositional_wire : Compositional @SameOnWire where
  ok _ := ⟨rfl, fun e h ↦ by cases h⟩
  wire w := ⟨rfl, fun e h ↦ by
    cases h
    exact ⟨w, rfl⟩⟩
  bind {α β x x' f f'} hx hf := by
    obtain ⟨rfl, hx⟩ := hx
    cases x' with
    | error e => exact ⟨rfl, fun e' h ↦ hx e' (by cases h; rfl)⟩
    | ok a => exact hf a rfl

/-- Scalars ask no registry anything. -/
theorem Plan.IsPlain.asks_wire (h : p.IsPlain) (reg reg' : Registry) :
    p.Asks @SameOnWire reg reg' := by
  obtain ⟨s, hs⟩ := h.element
  refine ⟨fun target ht ↦ ?_, fun target isOpen ht ↦ ?_⟩
  · cases hs.symm.trans ht
  · cases hs.symm.trans ht

namespace MessageMarshaller.IsPlain

theorem exists_readRecord (hplain : m.IsPlain) (hm : m.WellFormed)
    (hr : Record.decode input = .ok (r, rest)) (htakes : m.Takes r) :
    ∃ e, (m.readRecord reg nested input).result = .ok (e, rest) := by
  obtain ⟨tag, afterTag, ht, hnumber, hpayload⟩ := Record.decode_eq_ok.1 hr
  cases hplan : m.plan? r.number with
  | none =>
    have hread : (m.readRecord reg nested input).result =
        .ok ({ retained := consumed input rest }, rest) := by
      simp only [readRecord, Logged.result_bind, result_ofWire, ht, mapError_ok, ok_bind, hnumber,
        hplan, hpayload, Logged.result_note, Logged.result_pure]
    exact ⟨_, hread⟩
  | some found =>
    obtain ⟨k, p⟩ := found
    obtain ⟨hp, hpnumber⟩ := plan?_eq_some hplan
    have hpp := hplain p (List.mem_of_getElem? hp)
    have htake := htakes k p hplan
    have hr : Record.decode input = .ok (⟨p.field.number, r.payload⟩, rest) := by
      rw [hr, hpnumber]
    unfold Plan.Takes at htake
    rcases hpp.cardinality with hc | ⟨hc, hw⟩
    · rw [if_neg (by rw [hc]; decide)] at htake
      obtain ⟨v, hv⟩ := htake
      have htag : tag.wireType = p.element.wireType :=
        (Payload.wireType_of_decode hpayload).symm.trans (Element.wireType_of_valueOf? hv)
      have hread : (readElement reg nested p afterTag).result = .ok (p.judge reg v, rest) :=
        readElement_of_valueOf? hpp.resolved (htag ▸ hpayload) hv
      rw [Plan.judge_eq_accepted (hpp.undeclared?_eq v)] at hread
      exact ⟨_, readRecord_of_readsRecordAs ht (hnumber ▸ hplan) (.single (.inr hc) htag hread)⟩
    · rw [if_pos hc] at htake
      rcases htake with hsingle | ⟨run, payloads, hrun, hpayloads⟩
      · obtain ⟨v, hv⟩ := Element.exists_valueOf? hw hsingle
        obtain ⟨e, he, -⟩ := adds_of_single hm hp hc hpp.resolved hr hv
        exact ⟨e, he⟩
      · obtain ⟨vs, hvs⟩ := exists_values_of_run hw hpayloads
        obtain ⟨e, he, -⟩ := adds_of_run hm hp hc hw hpp.resolved (hrun ▸ hr) hpayloads hvs
        exact ⟨e, he⟩

theorem takes_of_readRecord (hplain : m.IsPlain) {e : Effect}
    (h : (m.readRecord reg nested input).result = .ok (e, rest))
    (hr : Record.decode input = .ok (r, rest)) : m.Takes r := by
  intro k p hplan
  obtain ⟨tag, afterTag, ht, hcases⟩ := readRecord_eq_ok h
  obtain ⟨tag', afterTag', ht', hnumber, hpayload⟩ := Record.decode_eq_ok.1 hr
  obtain ⟨rfl, rfl⟩ := Prod.mk.inj (Except.ok.inj (ht.symm.trans ht'))
  have hpp := hplain p (List.mem_of_getElem? (plan?_eq_some hplan).1)
  rcases hcases with ⟨hnone, -⟩ | ⟨index, q, hsome, hread⟩
  · rw [hnumber] at hnone
    cases hplan.symm.trans hnone
  · rw [hnumber] at hsome
    cases hplan.symm.trans hsome
    unfold Plan.Takes
    cases hread with
    | single hc hw hread =>
      rw [if_neg (by rcases hc with hc | hc <;> rw [hc] <;> decide)]
      obtain ⟨payload, v, hdecode, hv, -⟩ := hpp.exists_payload hread
      cases (hw ▸ hpayload).symm.trans hdecode
      exact ⟨v, hv⟩
    | element hc hw hread =>
      rw [if_pos hc]
      exact .inl ((Payload.wireType_of_decode hpayload).trans hw)
    | packed hc hw _ hframe hreadings =>
      rw [if_pos hc]
      obtain ⟨payloads, hrun⟩ := hpp.exists_run hreadings
      rw [hw, Payload.decode_of_frame hframe] at hpayload
      exact .inr ⟨_, payloads, (congrArg Prod.fst (Except.ok.inj hpayload)).symm, hrun⟩
    | rejected _ _ hread =>
      obtain ⟨_, _, -, -, hreading⟩ := hpp.exists_payload hread
      cases hreading
    | entry hc | spoiledEntry hc =>
      rcases hpp.cardinality with hc' | ⟨hc', -⟩ <;> cases hc'.symm.trans hc

theorem exists_readAll (hplain : m.IsPlain) (hm : m.WellFormed) (hrs : Records input rs)
    (htakes : ∀ r ∈ rs, m.Takes r) :
    ∃ effects, (readAll (m.readRecord reg nested) input).result = .ok effects := by
  induction hrs with
  | nil => exact ⟨[], readAll_nil _⟩
  | cons head _ ih =>
    obtain ⟨hr, hrest⟩ := List.forall_mem_cons.1 htakes
    obtain ⟨effects, heffects⟩ := ih hrest
    obtain ⟨e, he⟩ := hplain.exists_readRecord hm head hr
    exact ⟨e :: effects, by rw [readAll_step (Record.decode_length head) he, heffects, map_ok]⟩

/-- **What is read.** An input is read exactly if it is made up of records that can be taken. -/
theorem readAll_iff (hplain : m.IsPlain) (hm : m.WellFormed) :
    (∃ effects, (readAll (m.readRecord reg nested) input).result = .ok effects) ↔
      Records input (recordsOf input) ∧ ∀ r ∈ recordsOf input, m.Takes r := by
  constructor
  · rintro ⟨effects, heffects⟩
    obtain ⟨hinput, hreads, -⟩ := readAll_eq_ok_iff.1 heffects
    refine ⟨records_iff.2 ⟨hinput, rfl⟩, fun r hr ↦ ?_⟩
    obtain ⟨piece, hpiece, rfl⟩ := List.mem_map.1 hr
    exact hplain.takes_of_readRecord (hreads piece hpiece).readRecord (hreads piece hpiece).record
  · rintro ⟨hrs, htakes⟩
    exact hplain.exists_readAll hm hrs htakes

theorem wire_of_readAll (hplain : m.IsPlain) {e : DecodeError}
    (h : (readAll (m.readRecord reg nested) input).result = .error e) : ∃ w, e = .wire w := by
  -- The empty registry has no messages, so nothing nested is read with it.
  have hnested : nested.Related @SameOnWire .empty nested := ⟨id, .inl, fun _ _ hm ↦ by cases hm⟩
  have hrecord := compositional_wire.readRecord hnested (.refl m) fun p hp ↦
    (hplain p hp).asks_wire .empty reg
  obtain ⟨hsame, hwire⟩ := compositional_wire.readAll hrecord input
  exact hwire e (hsame.symm.trans h)

end MessageMarshaller.IsPlain

/-! ## Handing over

Single fields follow the last record of their number, and lists collect the elements of all of
theirs. Both are told by the records that the input is split into. -/

theorem lastOf?_append_singleton (n : Nat) (rs : List Record) (r : Record) :
    lastOf? n (rs ++ [r]) = if r.number = n then some r else lastOf? n rs := by
  rw [lastOf?, List.filter_append]
  by_cases hr : r.number = n
  · have hself : [r].filter (·.number == n) = [r] := by simp [hr]
    rw [if_pos hr, hself, List.getLast?_concat]
  · have hnone : [r].filter (·.number == n) = [] := by simp [hr]
    rw [if_neg hr, hnone, List.append_nil, lastOf?]

namespace MessageMarshaller.IsPlain

theorem slotAfter_of_number (hplain : m.IsPlain) (hm : m.WellFormed) (hp : m.plans[k]? = some p)
    (hc : p.field.cardinality = .optional) {piece : Bytes × Record}
    (hreads : m.Reads reg nested piece) (hnumber : piece.2.number = p.field.number)
    (slot : Option Value) :
    Draft.slotAfter m k slot (m.effectAlone reg nested piece) =
      p.element.valueOf? piece.2.payload := by
  have hpp := hplain p (List.mem_of_getElem? hp)
  obtain ⟨tag, afterTag, ht, hread⟩ := readRecord_eq_ok hreads.readRecord
  obtain ⟨tag', afterTag', ht', htag, hpayload⟩ := Record.decode_eq_ok.1 hreads.record
  obtain ⟨rfl, rfl⟩ := Prod.mk.inj (Except.ok.inj (ht.symm.trans ht'))
  have hplan : m.plan? tag.number = some (k, p) :=
    (htag.trans hnumber) ▸ plan?_of_getElem? hm.numbers hp
  rcases hread with ⟨hnone, -⟩ | ⟨index, q, hsome, hread⟩
  · cases hplan.symm.trans hnone
  · cases hplan.symm.trans hsome
    generalize m.effectAlone reg nested piece = e at hread
    cases hread with
    | single _ hw hread =>
      obtain ⟨payload, v, hdecode, hv, hreading⟩ := hpp.exists_payload hread
      cases hreading
      cases (hw ▸ hpayload).symm.trans hdecode
      rw [Draft.slotAfter_of_eq rfl, hv]
      rfl
    | rejected _ _ hread =>
      obtain ⟨_, _, -, -, hreading⟩ := hpp.exists_payload hread
      cases hreading
    | entry hmap | spoiledEntry hmap => cases hc.symm.trans hmap
    | packed hlist | element hlist => cases hc.symm.trans hlist

theorem slot_eq_lastOf? (hplain : m.IsPlain) (hm : m.WellFormed) (hp : m.plans[k]? = some p)
    (hc : p.field.cardinality = .optional) {pieces : List (Bytes × Record)}
    (hreads : ∀ piece ∈ pieces, m.Reads reg nested piece) :
    m.slot (pieces.map (m.effectAlone reg nested)) k =
      (ProtoSchema.lastOf? p.field.number (pieces.map (·.2))).bind fun r ↦
        p.element.valueOf? r.payload := by
  have honeof := (hplain p (List.mem_of_getElem? hp)).oneof
  induction pieces using List.reverseRecOn with
  | nil => rfl
  | append_singleton pieces piece ih =>
    have hpiece := hreads piece (List.mem_append_right _ List.mem_cons_self)
    rw [List.map_append, List.map_append, List.map_singleton, List.map_singleton,
      slot_append_singleton, ProtoSchema.lastOf?_append_singleton,
      ih fun piece' h ↦ hreads piece' (List.mem_append_left _ h)]
    split
    · next hnumber => exact hplain.slotAfter_of_number hm hp hc hpiece hnumber _
    · next hnumber => exact hpiece.slotAfter_of_number hp honeof hnumber _

end MessageMarshaller.IsPlain

theorem recordsOf_nil : recordsOf [] = [] := by
  rw [recordsOf, split_nil, List.map_nil]

theorem recordsOf_step (hr : Record.decode input = .ok (r, rest)) :
    recordsOf input = r :: recordsOf rest := by
  rw [recordsOf, split_step hr (Record.decode_length hr), List.map_cons, recordsOf]

theorem elementsOf_cons_self {w : WireType} {n : Nat} :
    elementsOf w n (⟨n, payload⟩ :: rs) = elementsIn w ⟨n, payload⟩ ++ elementsOf w n rs := by
  rw [elementsOf, List.filter_cons, if_pos (beq_self_eq_true n), List.flatMap_cons, elementsOf]

theorem elementsOf_cons_of_ne {w : WireType} {n : Nat} (hr : r.number ≠ n) :
    elementsOf w n (r :: rs) = elementsOf w n rs := by
  rw [elementsOf, List.filter_cons, if_neg (by simpa using hr), elementsOf]

theorem Wire.Run.split_eq {w : WireType} {run : Bytes} {payloads : List Payload}
    (h : Run w run payloads) : (split (Payload.decode w) run).map (·.2) = payloads := by
  induction h with
  | nil => rw [split_nil, List.map_nil]
  | cons head _ ih => rw [split_step head (Payload.decode_length head), List.map_cons, ih]

theorem Plan.Cut.forall₂_elementsOf {items : List Item} (hw : p.element.wireType ≠ .lengthDelimited)
    (hcut : p.Cut input items) : List.Forall₂ (fun payload v ↦ p.element.valueOf? payload = some v)
      (elementsOf p.element.wireType p.field.number (recordsOf input))
      (items.filterMap Item.element?) := by
  induction hcut with
  | nil =>
    rw [recordsOf_nil]
    exact .nil
  | @run input rest run payloads vs items head hrun hvs _ ih =>
    have helements : elementsIn p.element.wireType ⟨p.field.number, .bytes run⟩ = payloads :=
      hrun.split_eq
    rw [recordsOf_step head, elementsOf_cons_self, helements, List.filterMap_append,
      Item.filterMap_element?_map]
    exact List.rel_append hvs ih
  | @single input rest payload v items head hv _ ih =>
    have helements : elementsIn p.element.wireType ⟨p.field.number, payload⟩ = [payload] := by
      cases payload with
      | bytes run => exact absurd (Element.wireType_of_valueOf? hv).symm hw
      | _ => rfl
    rw [recordsOf_step head, elementsOf_cons_self, helements]
    exact .cons hv ih
  | other head hr _ ih =>
    rw [recordsOf_step head, elementsOf_cons_of_ne hr]
    exact ih

namespace MessageMarshaller.IsPlain

theorem fill_list (hplain : m.IsPlain) (hm : m.WellFormed) (hp : m.plans[k]? = some p)
    (hc : p.field.cardinality = .repeated)
    (hread : (readAll (m.readRecord reg nested) input).result = .ok effects) :
    ∃ vs, m.fill p (m.slot effects k) = .ok (some (.list vs)) ∧
      List.Forall₂ (fun payload v ↦ p.element.valueOf? payload = some v)
        (elementsOf p.element.wireType p.field.number (recordsOf input)) vs := by
  have hpp := hplain p (List.mem_of_getElem? hp)
  have hw : p.element.wireType ≠ .lengthDelimited := by
    rcases hpp.cardinality with hc' | ⟨-, hw⟩
    · cases hc.symm.trans hc'
    · exact hw
  obtain ⟨hrs, htakes⟩ := (hplain.readAll_iff hm).1 ⟨effects, hread⟩
  obtain ⟨items, hcut⟩ := Plan.exists_cut hw hrs fun r hr hnumber ↦ by
    have htake := htakes r hr k p (hnumber ▸ plan?_of_getElem? hm.numbers hp)
    rwa [Plan.Takes, if_pos hc] at htake
  obtain ⟨effects', hread', hlists⟩ := hcut.exists_lists hm hp hc hw hpp.resolved
    fun piece hpiece ↦ (readAll_eq_ok_iff.1 hread).2.1 piece (hcut.mem_split hpiece).1
  obtain rfl := Except.ok.inj (hread.symm.trans hread')
  refine ⟨items.filterMap Item.element?, ?_, hcut.forall₂_elementsOf hw⟩
  rw [hlists.fill hc, hpp.acceptedOf_eq]

/-- **What is handed over.** Where an input is read, every field is handed what the records say. -/
theorem exists_hands (hplain : m.IsPlain) (hm : m.WellFormed)
    (hread : (readAll (m.readRecord reg nested) input).result = .ok effects) :
    ∃ hand, m.handing effects = .ok hand ∧ m.Hands (recordsOf input) hand := by
  obtain ⟨hinput, hreads, heffects⟩ := readAll_eq_ok_iff.1 hread
  obtain ⟨records, htrace, hrecords⟩ := readAll_eq_ok.1 hread
  have hmissing : ∀ p ∈ m.plans, ¬p.IsMissing reg nested records := by
    rintro p hp ⟨hc, -⟩
    rcases (hplain p hp).cardinality with hc' | ⟨hc', -⟩ <;> cases hc.symm.trans hc'
  obtain ⟨hand, hhand⟩ := exists_handing hm (fun r hr ↦ htrace.step_of_mem hr) hmissing
  rw [hrecords] at hhand
  refine ⟨hand, hhand, fun p hp hc ↦ ?_, fun p hp hc ↦ ?_⟩
  · obtain ⟨k, hk⟩ := List.mem_iff_getElem?.1 hp
    have hfill := fill_of_handing hm hhand hk
    have hslot := hplain.slot_eq_lastOf? hm hk hc hreads
    rw [← heffects] at hslot
    rw [← recordsOf] at hslot
    rw [← hslot]
    cases hs : m.slot effects k with
    | some v =>
      rw [hs] at hfill
      exact (Except.ok.inj hfill).symm
    | none =>
      rw [hs, fill] at hfill
      simp only [hc, (hplain p hp).default, Option.bind_none] at hfill
      exact (Except.ok.inj hfill).symm
  · obtain ⟨k, hk⟩ := List.mem_iff_getElem?.1 hp
    obtain ⟨vs, hfill, hvs⟩ := hplain.fill_list hm hk hc hread
    rw [fill_of_handing hm hhand hk] at hfill
    exact ⟨vs, Except.ok.inj hfill, hvs⟩

end MessageMarshaller.IsPlain

end ProtoSchema
