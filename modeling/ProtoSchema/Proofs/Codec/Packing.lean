import ProtoSchema.Proofs.Codec.Payload
import ProtoSchema.Proofs.Codec.Reordering
import ProtoSchema.Proofs.Wire.Framing

/-!
# Packed and unpacked elements

The elements of a repeated field may come in packed runs of any length, one by one, or in both ways,
with records of other fields between them. `Plan.Cut` reads off an input which elements those are,
without asking how they were cut into records, and everything that decoding makes of the input is
told by what it reads off.

The invariant of the loop is that the slot of the field holds the accepted elements so far. It is
looser than it seems: an empty run makes the slot a list with nothing in it, while no record leaves
it empty, so slots of two cuts need not be equal. They agree only once they are filled. The other
invariant is about the slots of other fields, which follow the records of other fields as if the
elements were not there.

An undeclared number is kept in two ways, as the record it came in or, out of a run, as a record
made for it. These are the same bytes if the record it came in was written as a writer of `int64`
writes it, which is what `Plan.Canonical` asks for.
-/

set_option autoImplicit false

namespace ProtoSchema

open Wire

/-! ## Cuts

A cut of an input is a list of items, elements of the field and records of other fields, in the
order in which they stand. Many inputs have the same items, and whatever is of the wire type of the
elements is an element. -/

/-- What comes one behind the other in an input, as a repeated field sees it: an element of the
field, or a record of another field. -/
inductive Item where
  | element (v : Value)
  | other (piece : Bytes × Record)

namespace Item

def element? : Item → Option Value
  | element v => some v
  | other _ => none

def other? : Item → Option (Bytes × Record)
  | element _ => none
  | other piece => some piece

theorem filterMap_element?_map (vs : List Value) : (vs.map element).filterMap element? = vs := by
  rw [List.filterMap_map]
  exact List.filterMap_some

theorem filterMap_other?_map (vs : List Value) : (vs.map element).filterMap other? = [] := by
  simp [List.filterMap_map, Function.comp_def, other?]

theorem other_mem {items items' : List Item}
    (h : items'.filterMap other? = items.filterMap other?) {piece : Bytes × Record}
    (hpiece : other piece ∈ items') : other piece ∈ items := by
  have hmem : piece ∈ items'.filterMap other? := List.mem_filterMap.2 ⟨_, hpiece, rfl⟩
  rw [h] at hmem
  obtain ⟨item, hitem, hpiece⟩ := List.mem_filterMap.1 hmem
  cases item <;> cases hpiece
  exact hitem

end Item

theorem exists_values_of_run {e : Element} (he : e.wireType ≠ .lengthDelimited) {run : Bytes}
    {payloads : List Payload} (h : Run e.wireType run payloads) :
    ∃ vs, List.Forall₂ (fun payload v ↦ e.valueOf? payload = some v) payloads vs := by
  induction h with
  | nil => exact ⟨[], .nil⟩
  | cons head _ ih =>
    obtain ⟨v, hv⟩ := Element.exists_valueOf? he (Payload.wireType_of_decode head)
    obtain ⟨vs, hvs⟩ := ih
    exact ⟨v :: vs, .cons hv hvs⟩

/-- The input is cut into records. Each record that bears the number of the field is a packed run of
zero or more of its elements, or one element that is not packed. -/
inductive Plan.Cut (p : Plan) : Bytes → List Item → Prop
  | nil : Cut p [] []
  | run {input rest run : Bytes} {payloads : List Payload} {vs : List Value} {items : List Item}
      (head : Record.decode input = .ok (⟨p.field.number, .bytes run⟩, rest))
      (hrun : Run p.element.wireType run payloads)
      (hvs : List.Forall₂ (fun payload v ↦ p.element.valueOf? payload = some v) payloads vs)
      (tail : Cut p rest items) : Cut p input (vs.map .element ++ items)
  | single {input rest : Bytes} {payload : Payload} {v : Value} {items : List Item}
      (head : Record.decode input = .ok (⟨p.field.number, payload⟩, rest))
      (hv : p.element.valueOf? payload = some v) (tail : Cut p rest items) :
      Cut p input (.element v :: items)
  | other {input rest : Bytes} {r : Record} {items : List Item}
      (head : Record.decode input = .ok (r, rest)) (hr : r.number ≠ p.field.number)
      (tail : Cut p rest items) : Cut p input (.other (consumed input rest, r) :: items)

/-- A payload of a record of the field: a run of elements, or an element. -/
def Plan.HoldsElements (p : Plan) (payload : Payload) : Prop :=
  payload.wireType = p.element.wireType ∨
    ∃ run payloads, payload = .bytes run ∧ Run p.element.wireType run payloads

theorem Plan.exists_cut {p : Plan} (hw : p.element.wireType ≠ .lengthDelimited) {input : Bytes}
    {rs : List Record} (hrs : Records input rs)
    (hholds : ∀ r ∈ rs, r.number = p.field.number → p.HoldsElements r.payload) :
    ∃ items, p.Cut input items := by
  induction hrs with
  | nil => exact ⟨[], .nil⟩
  | @cons input rest r rs head _ ih =>
    obtain ⟨items, htail⟩ := ih fun r hr ↦ hholds r (List.mem_cons_of_mem _ hr)
    by_cases hr : r.number = p.field.number
    · obtain ⟨number, payload⟩ := r
      cases hr
      rcases hholds _ List.mem_cons_self rfl with hsingle | ⟨run, payloads, hrun, hpayloads⟩
      · obtain ⟨v, hv⟩ := Element.exists_valueOf? hw hsingle
        exact ⟨_, .single head hv htail⟩
      · obtain ⟨vs, hvs⟩ := exists_values_of_run hw hpayloads
        cases hrun
        exact ⟨_, .run head hpayloads hvs htail⟩
    · exact ⟨_, .other head hr htail⟩

/-- The elements that are accepted: those with an undeclared number are not. -/
def Plan.acceptedOf (p : Plan) (reg : Registry) (vs : List Value) : List Value :=
  vs.filter fun v ↦ (p.undeclared? reg v).isNone

/-- Undeclared numbers that come in a record of their own are written with a tag and a varint as
short as they can be, extended to 64 bits by their sign. -/
def Plan.Canonical (p : Plan) (reg : Registry) (input : Bytes) : Prop :=
  ∀ piece ∈ split Record.decode input, piece.2.number = p.field.number →
    ∀ n, p.rejected? reg piece.2.payload = some n → piece.1 = (keptNumber p.field.number n).1

/-- What is kept of an item. -/
def MessageMarshaller.keptOfItem (m : MessageMarshaller) (reg : Registry) (p : Plan) :
    Item → List (Bytes × Record)
  | .element v => ((p.undeclared? reg v).map (keptNumber p.field.number)).toList
  | .other piece => m.kept reg piece

variable {m : MessageMarshaller} {reg : Registry} {nested : NestedReader} {p : Plan} {k : Nat}
  {input rest : Bytes} {items : List Item}

theorem Plan.acceptedOf_append (vs ws : List Value) :
    p.acceptedOf reg (vs ++ ws) = p.acceptedOf reg vs ++ p.acceptedOf reg ws :=
  List.filter_append ..

/-! ## Runs

A run is read payload by payload. Its accepted values are added, and its undeclared numbers are left
behind, in the order of the run. -/

theorem readAll_run (hres : p.element.Resolved reg) {run : Bytes} {payloads : List Payload}
    {vs : List Value} (hrun : Run p.element.wireType run payloads)
    (hvs : List.Forall₂ (fun payload v ↦ p.element.valueOf? payload = some v) payloads vs) :
    (readAll (readElement reg nested p) run).result = .ok (vs.map (p.judge reg)) := by
  induction hrun generalizing vs with
  | nil =>
    cases hvs
    exact readAll_nil _
  | cons head _ ih =>
    cases hvs with
    | cons hv hvs =>
      rw [readAll_step (Payload.decode_length head) (readElement_of_valueOf? hres head hv), ih hvs,
        map_ok, List.map_cons]

theorem acceptedValues_judge (vs : List Value) :
    acceptedValues (vs.map (p.judge reg)) = p.acceptedOf reg vs := by
  unfold acceptedValues Plan.acceptedOf
  induction vs with
  | nil => rfl
  | cons v vs ih =>
    rw [List.map_cons, List.filterMap_cons, ih]
    cases hv : p.undeclared? reg v with
    | none =>
      rw [Plan.judge_eq_accepted hv]
      exact (List.filter_cons_of_pos (by simp [hv])).symm
    | some n =>
      rw [Plan.judge_eq_rejected hv]
      exact (List.filter_cons_of_neg (by simp [hv])).symm

theorem undeclared_run {run : Bytes} {payloads : List Payload} {vs : List Value}
    (hrun : Run p.element.wireType run payloads)
    (hvs : List.Forall₂ (fun payload v ↦ p.element.valueOf? payload = some v) payloads vs) :
    ((split Varint.decode run).filterMap fun word ↦
      (p.rejected? reg (.varint word.2)).map (keptNumber p.field.number)) =
        vs.filterMap fun v ↦ (p.undeclared? reg v).map (keptNumber p.field.number) := by
  by_cases hw : p.element.wireType = .varint
  · rw [hw] at hrun
    induction hrun generalizing vs with
    | nil =>
      cases hvs
      rw [split_nil]
      rfl
    | cons head _ ih =>
      obtain ⟨w, rfl, hword⟩ := Payload.decode_varint head
      cases hvs with
      | cons hv hvs =>
        rw [split_step hword (Payload.decode_length head), List.filterMap_cons, List.filterMap_cons,
          ih hvs, Plan.rejected?_eq hv]
  · -- Elements of another wire type are no numbers of an enum, whatever the run looks like.
    have hnone : ∀ payload, p.rejected? reg payload = none := Plan.rejected?_eq_none hw
    have hvalues : ∀ v ∈ vs, p.undeclared? reg v = none := by
      intro v hv
      obtain ⟨payload, -, hpayload⟩ := exists_of_forall₂_right hvs hv
      rw [← Plan.rejected?_eq hpayload, hnone]
    rw [List.filterMap_eq_nil_iff.2 fun word _ ↦ by rw [hnone, Option.map_none],
      List.filterMap_eq_nil_iff.2 fun v hv ↦ by rw [hvalues v hv, Option.map_none]]

/-! ## One record

A record of the field adds its accepted elements to the list. Whether the field is declared packed
or not makes no difference for reading. -/

/-- An effect that adds values to the list of a field, and does nothing else to any field. -/
def Effect.Adds (e : Effect) (k : Nat) (vs : List Value) : Prop :=
  e.change = some (k, .append vs) ∨ e.change = none ∧ vs = []

/-- What a slot holds of a list that is empty at first. -/
def ListsIn (vs : List Value) (slot : Option Value) : Prop :=
  slot = some (.list vs) ∨ slot = none ∧ vs = []

theorem Effect.Adds.slotAfter_self {e : Effect} {vs old : List Value} {slot : Option Value}
    (h : e.Adds k vs) (hslot : ListsIn old slot) :
    ListsIn (old ++ vs) (Draft.slotAfter m k slot e) := by
  rcases h with hc | ⟨hc, rfl⟩
  · rw [Draft.slotAfter_of_eq hc]
    rcases hslot with rfl | ⟨rfl, rfl⟩
    · exact .inl rfl
    · exact .inl rfl
  · rwa [Draft.slotAfter_of_none hc, List.append_nil]

theorem Effect.Adds.slotAfter_other {e : Effect} {vs : List Value} {j : Nat} (h : e.Adds k vs)
    (hj : k ≠ j) (slot : Option Value) : Draft.slotAfter m j slot e = slot := by
  rcases h with hc | ⟨hc, -⟩
  · refine (Draft.slotAfter_of_ne hc hj).resolve_right ?_
    rintro ⟨-, -, v, hv⟩
    cases hv
  · exact Draft.slotAfter_of_none hc

theorem ListsIn.fill {vs : List Value} {slot : Option Value} (h : ListsIn vs slot)
    (hc : p.field.cardinality = .repeated) : m.fill p slot = .ok (some (.list vs)) := by
  rcases h with rfl | ⟨rfl, rfl⟩
  · rfl
  · simp only [MessageMarshaller.fill, hc]

section

variable (hm : m.WellFormed) (hp : m.plans[k]? = some p) (hc : p.field.cardinality = .repeated)

include hm hp hc

theorem adds_of_run (hw : p.element.wireType ≠ .lengthDelimited)
    (hres : p.element.Resolved reg) {run : Bytes} {payloads : List Payload} {vs : List Value}
    (head : Record.decode input = .ok (⟨p.field.number, .bytes run⟩, rest))
    (hrun : Run p.element.wireType run payloads)
    (hvs : List.Forall₂ (fun payload v ↦ p.element.valueOf? payload = some v) payloads vs) :
    ∃ e, (m.readRecord reg nested input).result = .ok (e, rest) ∧
      e.Adds k (p.acceptedOf reg vs) := by
  obtain ⟨tag, afterTag, ht, hnumber, hpayload⟩ := Record.decode_eq_ok.1 head
  have htag : tag.wireType = .lengthDelimited := (Payload.wireType_of_decode hpayload).symm
  rw [htag] at hpayload
  obtain ⟨frame, hframe, htaken⟩ := Payload.decode_frame hpayload
  cases hframe
  have hplan : m.plan? tag.number = some (k, p) :=
    hnumber ▸ MessageMarshaller.plan?_of_getElem? hm.numbers hp
  refine ⟨_, MessageMarshaller.readRecord_of_readsRecordAs ht hplan
    (.packed hc htag hw htaken (readAll_run hres hrun hvs)), .inl ?_⟩
  rw [acceptedValues_judge]

theorem adds_of_single (hres : p.element.Resolved reg) {payload : Payload} {v : Value}
    (head : Record.decode input = .ok (⟨p.field.number, payload⟩, rest))
    (hv : p.element.valueOf? payload = some v) :
    ∃ e, (m.readRecord reg nested input).result = .ok (e, rest) ∧
      e.Adds k (p.acceptedOf reg [v]) := by
  obtain ⟨tag, afterTag, ht, hnumber, hpayload⟩ := Record.decode_eq_ok.1 head
  have htag : tag.wireType = p.element.wireType := by
    rw [← Payload.wireType_of_decode hpayload]
    exact Element.wireType_of_valueOf? hv
  rw [htag] at hpayload
  have hplan : m.plan? tag.number = some (k, p) :=
    hnumber ▸ MessageMarshaller.plan?_of_getElem? hm.numbers hp
  have hread : (readElement reg nested p afterTag).result = _ :=
    readElement_of_valueOf? hres hpayload hv
  cases hundeclared : p.undeclared? reg v with
  | none =>
    rw [Plan.judge_eq_accepted hundeclared] at hread
    refine ⟨_, MessageMarshaller.readRecord_of_readsRecordAs ht hplan (.element hc htag hread),
      .inl ?_⟩
    simp [Plan.acceptedOf, hundeclared]
  | some n =>
    rw [Plan.judge_eq_rejected hundeclared] at hread
    refine ⟨_, MessageMarshaller.readRecord_of_readsRecordAs ht hplan
      (.rejected (by rw [hc]; decide) htag hread), .inr ⟨rfl, ?_⟩⟩
    simp [Plan.acceptedOf, hundeclared]

end

/-! ## All records

The effects of a cut input are followed from its end to its front: a record is put in front of
effects that are known, and either adds to the list or is one of another field. -/

/-- The effects of a cut input: the slot of the field holds the accepted elements behind what it
held, and the other slots hold what the records of other fields leave in them. -/
structure Lists (m : MessageMarshaller) (reg : Registry) (nested : NestedReader) (p : Plan)
    (k : Nat) (items : List Item) (effects : List Effect) : Prop where
  self : ∀ old slot, ListsIn old slot → ListsIn
    (old ++ p.acceptedOf reg (items.filterMap Item.element?))
    (effects.foldl (Draft.slotAfter m k) slot)
  others : ∀ j, k ≠ j → ∀ slot, effects.foldl (Draft.slotAfter m j) slot =
    ((items.filterMap Item.other?).map (m.effectAlone reg nested)).foldl (Draft.slotAfter m j) slot

namespace Lists

variable {effects effects' : List Effect} {items' : List Item}

theorem nil : Lists m reg nested p k [] [] where
  self old slot hslot := by
    rw [List.filterMap_nil, Plan.acceptedOf, List.filter_nil, List.append_nil]
    exact hslot
  others _ _ _ := rfl

theorem adds (h : Lists m reg nested p k items effects) {e : Effect} {vs : List Value}
    (he : e.Adds k (p.acceptedOf reg vs)) :
    Lists m reg nested p k (vs.map .element ++ items) (e :: effects) where
  self old slot hslot := by
    rw [List.filterMap_append, Item.filterMap_element?_map, Plan.acceptedOf_append,
      ← List.append_assoc]
    exact h.self _ _ (he.slotAfter_self hslot)
  others j hj slot := by
    rw [List.foldl_cons, he.slotAfter_other hj, h.others j hj, List.filterMap_append,
      Item.filterMap_other?_map, List.nil_append]

theorem other (h : Lists m reg nested p k items effects) {piece : Bytes × Record}
    (hslot : ∀ slot, Draft.slotAfter m k slot (m.effectAlone reg nested piece) = slot) :
    Lists m reg nested p k (.other piece :: items) (m.effectAlone reg nested piece :: effects) where
  self old slot hold := by
    rw [List.foldl_cons, hslot]
    exact h.self old slot hold
  others j hj slot := by
    rw [List.foldl_cons, h.others j hj]
    rfl

theorem fill (h : Lists m reg nested p k items effects) (hc : p.field.cardinality = .repeated) :
    m.fill p (m.slot effects k) =
      .ok (some (.list (p.acceptedOf reg (items.filterMap Item.element?)))) := by
  have hlist := h.self [] none (.inr ⟨rfl, rfl⟩)
  rw [List.nil_append] at hlist
  exact hlist.fill hc

/-- Inputs with the same elements and the same records of other fields hand over the same values. -/
theorem handing_eq (h : Lists m reg nested p k items effects)
    (h' : Lists m reg nested p k items' effects') (hp : m.plans[k]? = some p)
    (hc : p.field.cardinality = .repeated)
    (helements : items'.filterMap Item.element? = items.filterMap Item.element?)
    (hothers : items'.filterMap Item.other? = items.filterMap Item.other?) :
    m.handing effects' = m.handing effects := by
  refine MessageMarshaller.handing_congr_fill fun j q hq ↦ ?_
  by_cases hj : k = j
  · subst hj
    cases hp.symm.trans hq
    rw [h.fill hc, h'.fill hc, helements]
  · rw [MessageMarshaller.slot, MessageMarshaller.slot, h.others j hj, h'.others j hj, hothers]

end Lists

/-- **What a cut does.** If the records of other fields can be read, so can the input. -/
theorem Plan.Cut.exists_lists (hm : m.WellFormed) (hp : m.plans[k]? = some p)
    (hc : p.field.cardinality = .repeated) (hw : p.element.wireType ≠ .lengthDelimited)
    (hres : p.element.Resolved reg) (hcut : p.Cut input items)
    (hothers : ∀ piece, Item.other piece ∈ items → m.Reads reg nested piece) :
    ∃ effects, (readAll (m.readRecord reg nested) input).result = .ok effects ∧
      Lists m reg nested p k items effects := by
  have honeof := (hm.plans p (List.mem_of_getElem? hp)).oneof_eq_none (by rw [hc]; decide)
  induction hcut with
  | nil => exact ⟨[], readAll_nil _, .nil⟩
  | @run input rest run payloads vs items head hrun hvs _ ih =>
    obtain ⟨effects, hread, hlists⟩ := ih fun piece hpiece ↦
      hothers piece (List.mem_append_right _ hpiece)
    obtain ⟨e, he, hadds⟩ : ∃ e, (m.readRecord reg nested input).result = .ok (e, rest) ∧ _ :=
      adds_of_run hm hp hc hw hres head hrun hvs
    refine ⟨e :: effects, ?_, hlists.adds hadds⟩
    rw [readAll_step (Record.decode_length head) he, hread, map_ok]
  | @single input rest payload v items head hv _ ih =>
    obtain ⟨effects, hread, hlists⟩ := ih fun piece hpiece ↦
      hothers piece (List.mem_cons_of_mem _ hpiece)
    obtain ⟨e, he, hadds⟩ : ∃ e, (m.readRecord reg nested input).result = .ok (e, rest) ∧ _ :=
      adds_of_single hm hp hc hres head hv
    refine ⟨e :: effects, ?_, hlists.adds hadds⟩
    rw [readAll_step (Record.decode_length head) he, hread, map_ok]
  | @other input rest r items head hr _ ih =>
    obtain ⟨effects, hread, hlists⟩ := ih fun piece hpiece ↦
      hothers piece (List.mem_cons_of_mem _ hpiece)
    have hreads := hothers _ List.mem_cons_self
    have he := hreads.yields rest
    rw [show consumed input rest ++ rest = input from
      ((Record.local_decode.yields head).1).symm] at he
    refine ⟨m.effectAlone reg nested (consumed input rest, r) :: effects, ?_,
      hlists.other fun slot ↦ hreads.slotAfter_of_number hp honeof hr slot⟩
    rw [readAll_step (Record.decode_length head) he, hread, map_ok]

/-- The other records of a cut are among the records of the input. -/
theorem Plan.Cut.mem_split (h : p.Cut input items) {piece : Bytes × Record}
    (hpiece : Item.other piece ∈ items) :
    piece ∈ split Record.decode input ∧ piece.2.number ≠ p.field.number := by
  induction h with
  | nil => cases hpiece
  | run head _ _ _ ih =>
    rw [split_step head (Record.decode_length head)]
    rcases List.mem_append.1 hpiece with hpiece | hpiece
    · obtain ⟨v, -, hv⟩ := List.mem_map.1 hpiece
      cases hv
    · exact (ih hpiece).imp_left (List.mem_cons_of_mem _)
  | single head _ _ ih =>
    rw [split_step head (Record.decode_length head)]
    rcases List.mem_cons.1 hpiece with hpiece | hpiece
    · cases hpiece
    · exact (ih hpiece).imp_left (List.mem_cons_of_mem _)
  | other head hr _ ih =>
    rw [split_step head (Record.decode_length head)]
    rcases List.mem_cons.1 hpiece with hpiece | hpiece
    · cases hpiece
      exact ⟨List.mem_cons_self, hr⟩
    · exact (ih hpiece).imp_left (List.mem_cons_of_mem _)

/-! ## What is kept

Unknown bytes are kept in the order in which they came, the undeclared numbers of the field among
the records of other fields. Each of the two kinds keeps its own order in every cut. How they are
mixed is not the same in every cut, which is why all unknown bytes agree only where nothing is moved
past anything else. -/

/-- What is kept of a record bears the number of the record. -/
theorem MessageMarshaller.number_of_mem_kept {piece r : Bytes × Record} (h : r ∈ m.kept reg piece) :
    r.2.number = piece.2.number := by
  have hself : ∀ c : Prop, ∀ _ : Decidable c, r ∈ (if c then [piece] else []) →
      r.2.number = piece.2.number := by
    intro c _ hr
    split at hr
    · rw [List.mem_singleton.1 hr]
    · cases hr
  unfold kept at h
  split at h
  · rw [List.mem_singleton.1 h]
  · next i q hplan =>
    unfold Plan.kept at h
    split at h
    · exact hself _ _ h
    · obtain ⟨word, -, hnumber⟩ := List.mem_filterMap.1 h
      obtain ⟨n, -, rfl⟩ := Option.map_eq_some_iff.1 hnumber
      exact (plan?_eq_some hplan).2
    · exact hself _ _ h

section

variable (hm : m.WellFormed) (hp : m.plans[k]? = some p) (hc : p.field.cardinality = .repeated)
  (hw : p.element.wireType ≠ .lengthDelimited)

include hm hp hc hw

theorem kept_of_single {payload : Payload} {v : Value}
    (head : Record.decode input = .ok (⟨p.field.number, payload⟩, rest))
    (hv : p.element.valueOf? payload = some v)
    (hcanonical : ∀ n, p.rejected? reg payload = some n →
      consumed input rest = (keptNumber p.field.number n).1) :
    m.kept reg (consumed input rest, ⟨p.field.number, payload⟩)
      = m.keptOfItem reg p (.element v) := by
  have hplan := MessageMarshaller.plan?_of_getElem? hm.numbers hp
  have hkept : p.kept reg (consumed input rest, ⟨p.field.number, payload⟩) =
      if (p.rejected? reg payload).isSome then
        [(consumed input rest, ⟨p.field.number, payload⟩)] else [] := by
    unfold Plan.kept
    split
    · next hmap _ => cases hc.symm.trans hmap
    · next run _ hrun =>
      refine absurd (Element.wireType_of_valueOf? hv).symm ?_
      rw [show payload = .bytes run from hrun]
      exact hw
    · rfl
  simp only [MessageMarshaller.kept, hplan, hkept, MessageMarshaller.keptOfItem,
    ← Plan.rejected?_eq hv]
  cases hn : p.rejected? reg payload with
  | none => rfl
  | some n =>
    -- The bytes are those of the number, so they are the record of the number.
    have hbytes := hcanonical n hn
    have hvalid := hm.plans p (List.mem_of_getElem? hp)
    have hyields := UnknownFields.yields_varintRecord hvalid.number n.toInt64.toUInt64 rest
    have hinput : consumed input rest ++ rest = input :=
      ((Record.local_decode.yields head).1).symm
    rw [show UnknownFields.varintRecord p.field.number n.toInt64.toUInt64 = consumed input rest
      from hbytes.symm, hinput, head] at hyields
    cases hyields
    rw [hbytes]
    rfl

theorem Plan.Cut.keptOf_eq (hcut : p.Cut input items) (hcanonical : p.Canonical reg input) :
    m.keptOf reg input = items.flatMap (m.keptOfItem reg p) := by
  have hplan := MessageMarshaller.plan?_of_getElem? hm.numbers hp
  induction hcut with
  | nil =>
    rw [MessageMarshaller.keptOf, split_nil]
    rfl
  | @run input rest run payloads vs items head hrun hvs _ ih =>
    have hcut := split_step head (Record.decode_length head)
    rw [Plan.Canonical, hcut] at hcanonical
    have hrest := ih fun piece hpiece ↦ hcanonical piece (List.mem_cons_of_mem _ hpiece)
    have hkept : m.kept reg (input.take (input.length - rest.length),
        ⟨p.field.number, .bytes run⟩) = (vs.map Item.element).flatMap (m.keptOfItem reg p) := by
      simp only [MessageMarshaller.kept, hplan, Plan.kept, hc, undeclared_run hrun hvs,
        List.flatMap_map, MessageMarshaller.keptOfItem]
      exact List.filterMap_eq_flatMap_toList ..
    rw [MessageMarshaller.keptOf, hcut, List.flatMap_cons, List.flatMap_append, ← hrest, hkept,
      MessageMarshaller.keptOf]
  | @single input rest payload v items head hv _ ih =>
    have hcut := split_step head (Record.decode_length head)
    rw [Plan.Canonical, hcut] at hcanonical
    have hrest := ih fun piece hpiece ↦ hcanonical piece (List.mem_cons_of_mem _ hpiece)
    rw [MessageMarshaller.keptOf, hcut, List.flatMap_cons, List.flatMap_cons, ← hrest,
      ← kept_of_single hm hp hc hw head hv fun n ↦ hcanonical _ List.mem_cons_self rfl n]
    rfl
  | @other input rest r items head hr _ ih =>
    have hcut := split_step head (Record.decode_length head)
    rw [Plan.Canonical, hcut] at hcanonical
    have hrest := ih fun piece hpiece ↦ hcanonical piece (List.mem_cons_of_mem _ hpiece)
    rw [MessageMarshaller.keptOf, hcut, List.flatMap_cons, List.flatMap_cons, ← hrest]
    rfl

end

theorem filter_keptOfItem_number (hothers : ∀ piece, Item.other piece ∈ items →
    piece.2.number ≠ p.field.number) :
    (items.flatMap (m.keptOfItem reg p)).filter (·.2.number == p.field.number) =
      (items.filterMap Item.element?).filterMap fun v ↦
        (p.undeclared? reg v).map (keptNumber p.field.number) := by
  induction items with
  | nil => rfl
  | cons item items ih =>
    have hrest := ih fun piece hpiece ↦ hothers piece (List.mem_cons_of_mem _ hpiece)
    rw [List.flatMap_cons, List.filter_append, hrest]
    cases item with
    | element v =>
      rw [List.filterMap_cons, Item.element?, List.filterMap_cons, MessageMarshaller.keptOfItem]
      cases p.undeclared? reg v <;> simp [keptNumber]
    | other piece =>
      have hnone : (m.kept reg piece).filter (·.2.number == p.field.number) = [] := by
        refine List.filter_eq_nil_iff.2 fun r hr ↦ ?_
        rw [m.number_of_mem_kept hr, beq_iff_eq]
        exact hothers piece List.mem_cons_self
      rw [MessageMarshaller.keptOfItem, hnone, List.nil_append]
      rfl

theorem filter_keptOfItem_others (hothers : ∀ piece, Item.other piece ∈ items →
    piece.2.number ≠ p.field.number) :
    (items.flatMap (m.keptOfItem reg p)).filter (·.2.number != p.field.number) =
      (items.filterMap Item.other?).flatMap (m.kept reg) := by
  induction items with
  | nil => rfl
  | cons item items ih =>
    have hrest := ih fun piece hpiece ↦ hothers piece (List.mem_cons_of_mem _ hpiece)
    rw [List.flatMap_cons, List.filter_append, hrest]
    cases item with
    | element v =>
      rw [List.filterMap_cons, Item.other?, MessageMarshaller.keptOfItem]
      cases p.undeclared? reg v <;> simp [keptNumber]
    | other piece =>
      have hall : (m.kept reg piece).filter (·.2.number != p.field.number) = m.kept reg piece := by
        refine List.filter_eq_self.2 fun r hr ↦ ?_
        rw [m.number_of_mem_kept hr, bne_iff_ne]
        exact hothers piece List.mem_cons_self
      rw [MessageMarshaller.keptOfItem, hall, List.filterMap_cons, Item.other?, List.flatMap_cons]

theorem flatMap_keptOfItem_filter (items : List Item) :
    items.flatMap (m.keptOfItem reg p) =
      (items.filter fun item ↦ !(m.keptOfItem reg p item).isEmpty).flatMap
        (m.keptOfItem reg p) := by
  induction items with
  | nil => rfl
  | cons item items ih =>
    rw [List.flatMap_cons, ih]
    by_cases hkept : m.keptOfItem reg p item = []
    · rw [List.filter_cons_of_neg (by simp [hkept]), hkept, List.nil_append]
    · rw [List.filter_cons_of_pos (by simpa using hkept), List.flatMap_cons]

/-- What decoding comes to, told by the records that are kept. -/
theorem result_decodeAt_of_readAll {levels : Nat} {effects : List Effect}
    (hread : (readAll (m.readRecord reg (reg.nestedAt levels)) input).result = .ok effects) :
    (reg.decodeAt levels m input).result = m.handing effects >>= fun hand ↦
      (m.layout.assemble hand [] ⟨(m.keptOf reg input).flatMap (·.1)⟩).mapError .factory := by
  obtain ⟨trace, htrace, rfl⟩ := readAll_eq_ok.1 hread
  rw [Registry.decodeAt_eq, MessageMarshaller.result_decodeWith_of_readAll hread,
    (keptOf_of_readTrace htrace).2]

/-- **Packed and unpacked input agree.** Take a repeated field of numbers, booleans or enum values
of a registered message type, declared packed or not, and two inputs that hold the same elements and
the same records of other fields, each in the same order, however the elements are cut into records
and wherever the other records stand between them. If the records of the one can be read, so can
those of the other, and the factories are handed the same values: for the field, all accepted
elements as they came. If undeclared numbers are written canonically, the same records of the field
are kept, one for each undeclared number, and the same records of other fields; and if nothing that
is kept was moved past the other, all unknown bytes are the same, and so is what decoding comes
to. -/
theorem decodeAt_of_cuts {reg : Registry} (hreg : reg.Compiled) {t : TypeId}
    {m : MessageMarshaller} (hm : reg.messageMarshaller? t = some m) {p : Plan} (hp : p ∈ m.plans)
    (hc : p.field.cardinality = .repeated) (hw : p.element.wireType ≠ .lengthDelimited)
    {input input' : Bytes} {items items' : List Item} (hcut : p.Cut input items)
    (hcut' : p.Cut input' items')
    (helements : items'.filterMap Item.element? = items.filterMap Item.element?)
    (hothers : items'.filterMap Item.other? = items.filterMap Item.other?) {levels : Nat}
    {effects : List Effect}
    (hread : (readAll (m.readRecord reg (reg.nestedAt levels)) input).result = .ok effects) :
    ∃ effects', (readAll (m.readRecord reg (reg.nestedAt levels)) input').result = .ok effects' ∧
      m.handing effects' = m.handing effects ∧
      (∀ hand, m.handing effects = .ok hand →
        hand p.path = some (.list (p.acceptedOf reg (items.filterMap Item.element?)))) ∧
      (∀ bytes ∈ [input, input'], (reg.decodeAt levels m bytes).result =
        m.handing effects >>= fun hand ↦ (m.layout.assemble hand []
          ⟨(m.keptOf reg bytes).flatMap (·.1)⟩).mapError .factory) ∧
      (p.Canonical reg input → p.Canonical reg input' →
        (∀ bytes ∈ [input, input'], (m.keptOf reg bytes).filter (·.2.number == p.field.number) =
          (items.filterMap Item.element?).filterMap fun v ↦
            (p.undeclared? reg v).map (keptNumber p.field.number)) ∧
        (m.keptOf reg input').filter (·.2.number != p.field.number) =
          (m.keptOf reg input).filter (·.2.number != p.field.number) ∧
        (items'.filter (fun item ↦ !(m.keptOfItem reg p item).isEmpty) =
            items.filter (fun item ↦ !(m.keptOfItem reg p item).isEmpty) →
          m.keptOf reg input' = m.keptOf reg input ∧
            (reg.decodeAt levels m input').result = (reg.decodeAt levels m input).result)) := by
  have hwell := hreg.closed.wellFormed t m hm
  have hres := hreg.closed.resolved t m hm p hp
  obtain ⟨k, hk⟩ := List.mem_iff_getElem?.1 hp
  have hreads : ∀ piece, Item.other piece ∈ items → m.Reads reg (reg.nestedAt levels) piece :=
    fun piece hpiece ↦
      (MessageMarshaller.readAll_eq_ok_iff.1 hread).2.1 piece (hcut.mem_split hpiece).1
  obtain ⟨effects₁, hread₁, hlists⟩ := hcut.exists_lists hwell hk hc hw hres hreads
  obtain ⟨effects', hread', hlists'⟩ := hcut'.exists_lists hwell hk hc hw hres fun piece hpiece ↦
    hreads piece (Item.other_mem hothers hpiece)
  obtain rfl := Except.ok.inj (hread.symm.trans hread₁)
  have hhanding := hlists.handing_eq hlists' hk hc helements hothers
  have hdecodes : ∀ bytes ∈ [input, input'], (reg.decodeAt levels m bytes).result =
      m.handing effects >>= fun hand ↦ (m.layout.assemble hand []
        ⟨(m.keptOf reg bytes).flatMap (·.1)⟩).mapError .factory := by
    rw [List.forall_mem_cons, List.forall_mem_singleton]
    exact ⟨result_decodeAt_of_readAll hread, hhanding ▸ result_decodeAt_of_readAll hread'⟩
  refine ⟨effects', hread', hhanding, fun hand hhand ↦ ?_, hdecodes, fun hcan hcan' ↦ ?_⟩
  · have hfill := MessageMarshaller.fill_of_handing hwell hhand hk
    rw [hlists.fill hc] at hfill
    exact (Except.ok.inj hfill).symm
  · have hkept := hcut.keptOf_eq hwell hk hc hw hcan
    have hkept' := hcut'.keptOf_eq hwell hk hc hw hcan'
    have hnumber : ∀ piece, Item.other piece ∈ items → piece.2.number ≠ p.field.number :=
      fun _ hpiece ↦ (hcut.mem_split hpiece).2
    have hnumber' : ∀ piece, Item.other piece ∈ items' → piece.2.number ≠ p.field.number :=
      fun _ hpiece ↦ (hcut'.mem_split hpiece).2
    refine ⟨?_, ?_, fun hsame ↦ ?_⟩
    · rw [List.forall_mem_cons, List.forall_mem_singleton, hkept, hkept',
        filter_keptOfItem_number hnumber, filter_keptOfItem_number hnumber', helements]
      exact ⟨rfl, rfl⟩
    · rw [hkept, hkept', filter_keptOfItem_others hnumber, filter_keptOfItem_others hnumber',
        hothers]
    · have hall : m.keptOf reg input' = m.keptOf reg input := by
        rw [hkept, hkept', flatMap_keptOfItem_filter items', hsame, ← flatMap_keptOfItem_filter]
      refine ⟨hall, ?_⟩
      rw [hdecodes input (.head _), hdecodes input' (.tail _ (.head _)), hall]

/-! ## The history of a meter

Levels are those of a closed enum, so a level that it does not declare is retained. -/

namespace Meter

def historyPlan : Plan where
  field := ⟨2, "history", .varint, .repeated, .enum "Level", none, none, false, true, none, none⟩
  element := .enum level false
  path := [1]

/-- A packed run with an undeclared level in it, a record of an undeclared number, and a level that
is not packed. -/
def packed : Bytes := [0x12, 0x03, 0x01, 0x07, 0x02] ++ [0x48, 0x81, 0x00] ++ [0x10, 0x01]

/-- The same levels, cut otherwise, with an empty run among them. -/
def unpacked : Bytes :=
  [0x10, 0x01] ++ [0x12, 0x00] ++ [0x10, 0x07] ++ [0x12, 0x01, 0x02] ++ [0x48, 0x81, 0x00] ++
    [0x12, 0x01, 0x01]

def sent : List Item :=
  [.element (.enum 1), .element (.enum 7), .element (.enum 2),
    .other ([0x48, 0x81, 0x00], ⟨9, .varint 1⟩), .element (.enum 1)]

theorem cut_packed : historyPlan.Cut packed sent := by
  have hrun : Run historyPlan.element.wireType [0x01, 0x07, 0x02]
      [.varint 1, .varint 7, .varint 2] := .cons rfl (.cons rfl (.cons rfl .nil))
  have hvs : List.Forall₂ (fun payload v ↦ historyPlan.element.valueOf? payload = some v)
      [.varint 1, .varint 7, .varint 2] [.enum 1, .enum 7, .enum 2] :=
    .cons rfl (.cons rfl (.cons rfl .nil))
  have hlast : historyPlan.Cut [0x10, 0x01] [.element (.enum 1)] := .single rfl rfl .nil
  have hother : (⟨9, .varint 1⟩ : Record).number ≠ historyPlan.field.number := by decide
  exact .run rfl hrun hvs (.other rfl hother hlast)

theorem cut_unpacked : historyPlan.Cut unpacked sent := by
  have hrun : ∀ b w, Varint.decode [b] = .ok (w, []) →
      Run historyPlan.element.wireType [b] [.varint w] :=
    fun b w h ↦ .cons (Payload.decode_of_word h) .nil
  have hvs : ∀ w : UInt64, List.Forall₂
      (fun payload v ↦ historyPlan.element.valueOf? payload = some v) [.varint w]
      [.enum w.toUInt32.toInt32] := fun _ ↦ .cons rfl .nil
  have hlast : historyPlan.Cut [0x12, 0x01, 0x01] [.element (.enum 1)] :=
    .run rfl (hrun 0x01 1 rfl) (hvs 1) .nil
  have hother : (⟨9, .varint 1⟩ : Record).number ≠ historyPlan.field.number := by decide
  exact .single rfl rfl (.run rfl .nil .nil (.single rfl rfl
    (.run rfl (hrun 0x02 2 rfl) (hvs 2) (.other rfl hother hlast))))

theorem canonical_of_all {bytes : Bytes} (h : ((split Record.decode bytes).all fun piece ↦
      piece.2.number != 2 || (historyPlan.rejected? registry piece.2.payload).all fun n ↦
        piece.1 == (keptNumber 2 n).1) = true) : historyPlan.Canonical registry bytes := by
  intro piece hpiece hnumber n hn
  have hall := List.all_eq_true.1 h piece hpiece
  rw [hn, show piece.2.number = 2 from hnumber] at hall
  exact eq_of_beq hall

theorem exists_history : ∃ m i, registry.messageMarshaller? log = some m ∧ historyPlan ∈ m.plans ∧
    (registry.decodeAt nestingLimit m packed).result = .ok i := by
  have hall : (registry.messageMarshaller? log).map (fun m ↦
      (m.plans[1]?, (registry.decodeAt nestingLimit m packed).result.toOption.isSome)) =
        some (some historyPlan, true) := by
    decide +kernel
  obtain ⟨m, hm, hall⟩ := Option.map_eq_some_iff.1 hall
  obtain ⟨hplan, hdecode⟩ := Prod.mk.inj hall
  obtain ⟨i, hi⟩ := isSome_toOption_iff.1 hdecode
  exact ⟨m, i, hm, List.mem_of_getElem? hplan, hi⟩

end Meter

/-- Both inputs are decoded as one log, and the undeclared level is kept in front of the undeclared
record. -/
theorem Meter.decodeAt_of_cuts_sent : ∃ m i, registry.messageMarshaller? log = some m ∧
    (registry.decodeAt nestingLimit m packed).result = .ok i ∧
    (registry.decodeAt nestingLimit m unpacked).result = .ok i ∧
    (m.keptOf registry unpacked).flatMap (·.1) = [0x10, 0x07] ++ [0x48, 0x81, 0x00] := by
  obtain ⟨m, i, hm, hplan, hi⟩ := exists_history
  have hread := hi
  rw [Registry.decodeAt_eq, Draft.result_decodeWith] at hread
  obtain ⟨effects, hread, -⟩ := bind_eq_ok.1 hread
  obtain ⟨effects', -, -, -, -, hkept⟩ :=
    decodeAt_of_cuts (CompilationUnit.compiled_registry _ _) hm hplan rfl (by decide) cut_packed
      cut_unpacked rfl rfl hread
  obtain ⟨-, -, hsame⟩ := hkept (canonical_of_all (by decide +kernel))
    (canonical_of_all (by decide +kernel))
  obtain ⟨hall, hdecode⟩ := hsame rfl
  have hbytes : (registry.messageMarshaller? log).map (fun m ↦
      (m.keptOf registry packed).flatMap (·.1)) = some ([0x10, 0x07] ++ [0x48, 0x81, 0x00]) := by
    decide +kernel
  rw [hm, Option.map_some, Option.some.injEq] at hbytes
  exact ⟨m, i, hm, hi, hdecode.trans hi, hall ▸ hbytes⟩

namespace Meter

/-- Two undeclared levels in one run, and an undeclared record behind it. -/
def together : Bytes := [0x12, 0x02, 0x07, 0x08] ++ [0x48, 0x01]

/-- The same levels in records of their own, with the undeclared record between them. -/
def apart : Bytes := [0x10, 0x07] ++ [0x48, 0x01] ++ [0x10, 0x08]

theorem cut_together : historyPlan.Cut together
    [.element (.enum 7), .element (.enum 8), .other ([0x48, 0x01], ⟨9, .varint 1⟩)] := by
  have hrun : Run historyPlan.element.wireType [0x07, 0x08] [.varint 7, .varint 8] :=
    .cons rfl (.cons rfl .nil)
  have hvs : List.Forall₂ (fun payload v ↦ historyPlan.element.valueOf? payload = some v)
      [.varint 7, .varint 8] [.enum 7, .enum 8] := .cons rfl (.cons rfl .nil)
  have hother : (⟨9, .varint 1⟩ : Record).number ≠ historyPlan.field.number := by decide
  exact .run rfl hrun hvs (.other rfl hother .nil)

theorem cut_apart : historyPlan.Cut apart
    [.element (.enum 7), .other ([0x48, 0x01], ⟨9, .varint 1⟩), .element (.enum 8)] := by
  have hother : (⟨9, .varint 1⟩ : Record).number ≠ historyPlan.field.number := by decide
  have hlast : historyPlan.Cut [0x10, 0x08] [.element (.enum 8)] := .single rfl rfl .nil
  exact .single rfl rfl (.other rfl hother hlast)

end Meter

/-- Unknown bytes keep the order in which they came, so they differ when an undeclared record stands
between two undeclared levels of one input and behind both in the other. -/
theorem Meter.retained_ne_of_cuts : ∃ (m : MessageMarshaller) (i i' : Instance)
    (items items' : List Item), registry.messageMarshaller? log = some m ∧ historyPlan ∈ m.plans ∧
    historyPlan.Cut together items ∧ historyPlan.Cut apart items' ∧
    items'.filterMap Item.element? = items.filterMap Item.element? ∧
    items'.filterMap Item.other? = items.filterMap Item.other? ∧
    historyPlan.Canonical registry together ∧ historyPlan.Canonical registry apart ∧
    (registry.decodeAt nestingLimit m together).result = .ok i ∧
    (registry.decodeAt nestingLimit m apart).result = .ok i' ∧
    (m.retained i).bytes = [0x10, 0x07, 0x10, 0x08, 0x48, 0x01] ∧
    (m.retained i').bytes = [0x10, 0x07, 0x48, 0x01, 0x10, 0x08] := by
  obtain ⟨m, -, hm, hplan, -⟩ := exists_history
  have hall : (registry.messageMarshaller? log).map (fun m ↦ [together, apart].map fun bytes ↦
      (registry.decodeAt nestingLimit m bytes).result.toOption.map fun i ↦ (m.retained i).bytes) =
        some [some [0x10, 0x07, 0x10, 0x08, 0x48, 0x01],
          some [0x10, 0x07, 0x48, 0x01, 0x10, 0x08]] := by
    decide +kernel
  rw [hm, Option.map_some, Option.some.injEq, List.map_cons, List.map_singleton, List.cons.injEq,
    List.cons.injEq] at hall
  obtain ⟨htogether, hapart, -⟩ := hall
  obtain ⟨i, hi, hbytes⟩ := Option.map_eq_some_iff.1 htogether
  obtain ⟨i', hi', hbytes'⟩ := Option.map_eq_some_iff.1 hapart
  exact ⟨m, i, i', _, _, hm, hplan, cut_together, cut_apart, rfl, rfl,
    canonical_of_all (by decide +kernel), canonical_of_all (by decide +kernel),
    toOption_eq_some.1 hi, toOption_eq_some.1 hi', hbytes, hbytes'⟩

end ProtoSchema
