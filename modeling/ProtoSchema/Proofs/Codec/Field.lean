import ProtoSchema.Proofs.Codec.Draft
import ProtoSchema.Proofs.Codec.Sent

/-!
# Reading back fields

A value that fits its field is written, as records that every reader can read, and the changes of
those records leave in the field's slot what `Plan.handed` foretells. The four ways to write a
field, left out, as one record, as one packed run and as a record for each element or entry, are
treated one after the other; the theorem at the end chooses between them as the writer does.

Single elements are read back elsewhere, wherever they stand. What is left here is that the records
of a field come in the order of its elements, and that each of them brings its part of the value.
-/

set_option autoImplicit false

namespace ProtoSchema

open Wire

variable {reg : Registry} {write : NestedWriter} {nested : NestedReader}
  {R : Instance → Instance → Prop}

/-- The records of a field that holds `v`, and the value `o` that a reader hands over for it. -/
structure Plan.Sends (reg : Registry) (nested : NestedReader) (R : Instance → Instance → Prop)
    (p : Plan) (v : Value) (b : Bytes) (sent : List Sent) (o : Option Value) : Prop where
  bytes : sent.flatMap (·.bytes) = b
  plan : ∀ s ∈ sent, s.plan = p
  readable : ∀ s ∈ sent, s.Readable reg nested
  absent : v.isAbsent = true → sent = []
  handed : Option.Rel (Value.Same R) (p.handed v) o
  filled : ∀ (m : MessageMarshaller) (q : Plan), p.Agrees q →
    m.fill q (collect (sent.map (·.change))) = .ok o

theorem Plan.Sends.mono {S : Instance → Instance → Prop} (hRS : ∀ i j, R i j → S i j) {p : Plan}
    {v : Value} {b : Bytes} {sent : List Sent} {o : Option Value}
    (h : p.Sends reg nested R v b sent o) : p.Sends reg nested S v b sent o :=
  { h with handed := rel_mono (fun _ _ h ↦ h.mono hRS) h.handed }

/-! ## Lists of records

Writing a list gives the bytes of its members in a row. Each part is short if the whole is, which is
how the bound on the length passes from a message to the runs of bytes within. -/

/-- If each of several things is written and what it gives is good when it is short enough, then
all of them are written, and what they give is good when it is short enough together. -/
theorem exists_writeAll {α γ : Type} {f : α → Except EncodeError Bytes} {l : List α}
    (Good : α → Bytes → γ → Prop)
    (h : ∀ a ∈ l, ∃ b, f a = .ok b ∧ (b.length < UInt64.size → ∃ c, Good a b c)) :
    ∃ b, MessageMarshaller.writeAll f l = .ok b ∧
      (b.length < UInt64.size → ∃ parts : List (Bytes × γ), parts.flatMap (·.1) = b ∧
        List.Forall₂ (fun a part ↦ Good a part.1 part.2) l parts) := by
  induction l with
  | nil => exact ⟨[], rfl, fun _ ↦ ⟨[], rfl, .nil⟩⟩
  | cons a rest ih =>
    obtain ⟨b, hb, hgood⟩ := h a List.mem_cons_self
    obtain ⟨bs, hbs, hrest⟩ := ih fun c hc ↦ h c (List.mem_cons_of_mem _ hc)
    refine ⟨b ++ bs, ?_, fun hl ↦ ?_⟩
    · simp only [MessageMarshaller.writeAll, hb, hbs, ok_bind, pure_eq_ok]
    · rw [List.length_append] at hl
      obtain ⟨c, hc⟩ := hgood (by omega)
      obtain ⟨parts, hparts, hall⟩ := hrest (by omega)
      exact ⟨(b, c) :: parts, by rw [List.flatMap_cons, hparts], .cons hc hall⟩

/-! ## What changes collect to

Elements and entries that come one by one are appended one by one, whatever is already there. -/

private theorem foldl_append (ws old : List Value) :
    (ws.map fun w ↦ Change.append [w]).foldl (fun slot c ↦ c.on slot) (some (.list old))
      = some (.list (old ++ ws)) := by
  induction ws generalizing old with
  | nil => simp
  | cons w rest ih =>
    rw [List.map_cons, List.foldl_cons, Change.on, ih, List.append_assoc, List.singleton_append]

private theorem foldl_insert (es old : List (Value × Value)) :
    (es.map fun e ↦ Change.insert e.1 e.2).foldl (fun slot c ↦ c.on slot) (some (.map old))
      = some (.map (old ++ es)) := by
  induction es generalizing old with
  | nil => simp
  | cons e rest ih =>
    rw [List.map_cons, List.foldl_cons, Change.on, ih, List.append_assoc, List.singleton_append]

theorem fill_collect_append (m : MessageMarshaller) {q : Plan}
    (hq : q.field.cardinality = .repeated) (ws : List Value) :
    m.fill q (collect (ws.map fun w ↦ .append [w])) = .ok (some (.list ws)) := by
  cases ws with
  | nil => simp only [List.map_nil, collect, List.foldl_nil, MessageMarshaller.fill, hq]
  | cons w rest =>
    have hw : (Change.append [w]).on none = some (.list [w]) := rfl
    rw [collect, List.map_cons, List.foldl_cons, hw, foldl_append]
    rfl

theorem fill_collect_insert (m : MessageMarshaller) {q : Plan} (hq : q.field.cardinality = .map)
    (es : List (Value × Value)) :
    m.fill q (collect (es.map fun e ↦ .insert e.1 e.2)) = .ok (some (.map es)) := by
  cases es with
  | nil => simp only [List.map_nil, collect, List.foldl_nil, MessageMarshaller.fill, hq]
  | cons e rest =>
    have he : (Change.insert e.1 e.2).on none = some (.map [(e.1, e.2)]) := rfl
    rw [collect, List.map_cons, List.foldl_cons, he, foldl_insert]
    rfl

theorem fill_none (m : MessageMarshaller) {q : Plan} (hq : q.field.cardinality = .optional) :
    m.fill q none = .ok q.defaultValue? := by
  simp only [MessageMarshaller.fill, hq, Plan.defaultValue?]

theorem Plan.Agrees.defaultValue? {p q : Plan} (h : p.Agrees q) :
    q.defaultValue? = p.defaultValue? := by
  rw [Plan.defaultValue?, Plan.defaultValue?, h.default, h.element]

/-! ## The four ways to write a field

What was sent is a list of records with what each of them brings. A field that is left out sends
none, and then its slot stays empty and is filled with the declared default. -/

theorem Plan.isPlain_defaultValue? {p : Plan} {v : Value} (h : p.defaultValue? = some v) :
    v.isPlain = true := by
  obtain ⟨d, -, hd⟩ := Option.bind_eq_some_iff.1 h
  revert hd
  cases he : p.element with
  | scalar s => cases s <;> cases d <;> intro hd <;> cases hd <;> rfl
  | enum target isOpen => cases d <;> intro hd <;> cases hd; rfl
  | message target => cases d <;> intro hd <;> cases hd

/-- A field that is left out comes back as its declared default. -/
theorem Plan.sends_nothing {p : Plan} {v : Value} (hc : p.field.cardinality = .optional)
    (hv : (v.isAbsent || (MessageMarshaller.isImplicit p && isDefault v p.field.default)) = true) :
    p.Sends reg nested R v [] [] p.defaultValue? where
  bytes := rfl
  plan _ h := absurd h List.not_mem_nil
  readable _ h := absurd h List.not_mem_nil
  absent _ := rfl
  handed := by
    rw [Plan.handed, if_pos hv]
    cases hd : p.defaultValue? with
    | none => exact .none
    | some d => exact .some (.element (.plain (p.isPlain_defaultValue? hd)))
  filled m q ha := by
    rw [← ha.defaultValue?]
    exact fill_none m (ha.cardinality.trans hc)

theorem Plan.handed_of_cardinality {p : Plan} {v : Value} (hv : v.isAbsent = false)
    (hc : p.field.cardinality ≠ .optional) : p.handed v = some v := by
  have himp : MessageMarshaller.isImplicit p = false := by
    rw [MessageMarshaller.isImplicit, beq_eq_false_iff_ne.2 hc, Bool.and_false]
  rw [Plan.handed, hv, himp, Bool.false_and, Bool.or_false, if_neg Bool.false_ne_true]

/-- A field sends a record for each of its parts. -/
theorem Plan.sends_parts {γ : Type} {p : Plan} {v : Value} {o : Option Value} {b : Bytes}
    (make : γ → Change) (parts : List (Bytes × γ)) (hb : parts.flatMap (·.1) = b)
    (hr : ∀ part ∈ parts, Sent.Readable reg nested ⟨p, part.1, make part.2⟩)
    (hv : v.isAbsent = false) (ho : Option.Rel (Value.Same R) (p.handed v) o)
    (hf : ∀ (m : MessageMarshaller) (q : Plan), p.Agrees q →
      m.fill q (collect (parts.map fun part ↦ make part.2)) = .ok o) :
    p.Sends reg nested R v b (parts.map fun part ↦ ⟨p, part.1, make part.2⟩) o where
  bytes := by rw [List.flatMap_map, hb]
  plan s h := by
    obtain ⟨part, -, rfl⟩ := List.mem_map.1 h
    rfl
  readable s h := by
    obtain ⟨part, hpart, rfl⟩ := List.mem_map.1 h
    exact hr part hpart
  absent h := by
    rw [hv] at h
    cases h
  handed := ho
  filled m q ha := by
    rw [List.map_map]
    exact hf m q ha

theorem Plan.exists_sends_single (m : MessageMarshaller) {p : Plan} {v : Value}
    (hp : p.WellFormed) (hres : p.element.Resolved reg)
    (hc : p.field.cardinality = .required ∨ p.field.cardinality = .optional)
    (hv : p.handed v = some v) (hfit : p.element.Fits reg (Trips reg write nested R) v) :
    ∃ b, m.writeTagged reg write p p.field.number v = .ok b ∧
      (b.length < UInt64.size → ∃ sent o, p.Sends reg nested R v b sent o) := by
  obtain ⟨b, hb, hread⟩ := exists_writeElement m hres hfit
  refine ⟨Tag.encode ⟨p.field.number, p.element.wireType⟩ ++ b, ?_, fun hl ↦ ?_⟩
  · rw [MessageMarshaller.writeTagged, hb, map_ok]
  · have hbl : b.length < UInt64.size := by
      rw [List.length_append] at hl
      omega
    obtain ⟨⟨payload, ht, rfl⟩, w, hw, hq⟩ := hread hbl
    refine ⟨_, some w, Plan.sends_parts .set [(_, w)] (List.append_nil _) (fun part hpart ↦ ?_)
      hfit.isAbsent (hv ▸ .some (.element hw)) fun _ _ _ ↦ rfl⟩
    rw [List.mem_singleton.1 hpart]
    exact Sent.readable_single hp hc hbl ht hq

theorem Plan.exists_sends_packed (m : MessageMarshaller) {p : Plan} {vs : List Value}
    (hp : p.WellFormed) (hres : p.element.Resolved reg) (hc : p.field.cardinality = .repeated)
    (hpacked : p.field.packed = true)
    (hfit : ∀ a ∈ vs, p.element.Fits reg (Trips reg write nested R) a) :
    ∃ run, MessageMarshaller.writeAll (m.writeElement reg write p) vs = .ok run ∧
      ((Tag.encode ⟨p.field.number, .lengthDelimited⟩ ++ writeLengthDelimited run).length
          < UInt64.size →
        ∃ sent o, p.Sends reg nested R (.list vs)
          (Tag.encode ⟨p.field.number, .lengthDelimited⟩ ++ writeLengthDelimited run) sent o) := by
  have hw := hp.packed hpacked
  obtain ⟨run, hrun, hread⟩ := exists_writeAll (f := m.writeElement reg write p) (l := vs)
    (fun a b w ↦ Value.SameElement R a w ∧ ∀ q : Plan, q.element = p.element →
      ReadsAll (readElement reg nested q) b [.accepted w]) fun a ha ↦ by
    obtain ⟨b, hb, hread⟩ := exists_writeElement m hres (hfit a ha)
    refine ⟨b, hb, fun hl ↦ ?_⟩
    obtain ⟨⟨payload, -, rfl⟩, w, hw, hq⟩ := hread hl
    exact ⟨w, hw, fun q he ↦ .single payload.encode_ne_nil (hq q he)⟩
  refine ⟨run, hrun, fun hl ↦ ?_⟩
  rw [List.length_append] at hl
  have hfl : (writeLengthDelimited run).length < UInt64.size := by omega
  obtain ⟨parts, rfl, hall⟩ := hread (Nat.lt_of_le_of_lt (length_le_writeLengthDelimited run) hfl)
  have hsame : List.Forall₂ (Value.SameElement R) vs (parts.map (·.2)) :=
    List.forall₂_map_right_iff.2 (hall.imp fun _ _ h ↦ h.1)
  have hread : ∀ q : Plan, q.element = p.element → ReadsAll (readElement reg nested q)
      (parts.flatMap (·.1)) ((parts.map (·.2)).map .accepted) := by
    intro q he
    rw [List.map_map]
    refine .flatMap fun part hpart ↦ ?_
    obtain ⟨a, -, -, h⟩ := exists_of_forall₂_right hall hpart
    exact h q he
  have ho : Option.Rel (Value.Same R) (p.handed (.list vs)) (some (.list (parts.map (·.2)))) := by
    rw [Plan.handed_of_cardinality rfl (by rw [hc]; decide)]
    exact .some (.list hsame)
  refine ⟨_, _, Plan.sends_parts .append [(_, parts.map (·.2))] (List.append_nil _)
    (fun part hpart ↦ ?_) rfl ho fun _ _ _ ↦ rfl⟩
  rw [List.mem_singleton.1 hpart]
  exact Sent.readable_packed hp hc hw hfl hread

theorem Plan.exists_sends_unpacked (m : MessageMarshaller) {p : Plan} {vs : List Value}
    (hp : p.WellFormed) (hres : p.element.Resolved reg) (hc : p.field.cardinality = .repeated)
    (hfit : ∀ a ∈ vs, p.element.Fits reg (Trips reg write nested R) a) :
    ∃ b, MessageMarshaller.writeAll (m.writeTagged reg write p p.field.number) vs = .ok b ∧
      (b.length < UInt64.size → ∃ sent o, p.Sends reg nested R (.list vs) b sent o) := by
  obtain ⟨b, hb, hread⟩ := exists_writeAll (f := m.writeTagged reg write p p.field.number) (l := vs)
    (fun a b w ↦ Value.SameElement R a w ∧ Sent.Readable reg nested ⟨p, b, .append [w]⟩)
    fun a ha ↦ by
    obtain ⟨b, hb, hread⟩ := exists_writeElement m hres (hfit a ha)
    refine ⟨Tag.encode ⟨p.field.number, p.element.wireType⟩ ++ b, ?_, fun hl ↦ ?_⟩
    · rw [MessageMarshaller.writeTagged, hb, map_ok]
    · have hbl : b.length < UInt64.size := by
        rw [List.length_append] at hl
        omega
      obtain ⟨⟨payload, ht, rfl⟩, w, hw, hq⟩ := hread hbl
      exact ⟨w, hw, Sent.readable_element hp hc hbl ht hq⟩
  refine ⟨b, hb, fun hl ↦ ?_⟩
  obtain ⟨parts, hparts, hall⟩ := hread hl
  have ho : Option.Rel (Value.Same R) (p.handed (.list vs)) (some (.list (parts.map (·.2)))) := by
    rw [Plan.handed_of_cardinality rfl (by rw [hc]; decide)]
    exact .some (.list (List.forall₂_map_right_iff.2 (hall.imp fun _ _ h ↦ h.1)))
  refine ⟨_, _, Plan.sends_parts (fun w ↦ .append [w]) parts hparts (fun part hpart ↦ ?_) rfl ho
    fun m' q ha ↦ ?_⟩
  · obtain ⟨a, -, -, h⟩ := exists_of_forall₂_right hall hpart
    exact h
  · have := fill_collect_append m' (ha.cardinality.trans hc) (parts.map (·.2))
    rwa [List.map_map] at this

theorem Plan.exists_sends_map (m : MessageMarshaller) {p : Plan} {es : List (Value × Value)}
    {s : Scalar} (hp : p.WellFormed) (hres : p.element.Resolved reg)
    (hc : p.field.cardinality = .map) (hs : p.field.mapKey = some s)
    (hfit : ∀ e ∈ es, (∃ k, s.toPayload? e.1 = some k) ∧
      p.element.Fits reg (Trips reg write nested R) e.2) :
    ∃ b, MessageMarshaller.writeAll
        (fun (key, value) ↦ m.writeEntry reg write p s key value) es = .ok b ∧
      (b.length < UInt64.size → ∃ sent o, p.Sends reg nested R (.map es) b sent o) := by
  obtain ⟨b, hb, hread⟩ := exists_writeAll
    (f := fun (key, value) ↦ m.writeEntry reg write p s key value) (l := es)
    (fun e b (e' : Value × Value) ↦ (e.1 = e'.1 ∧ Value.SameElement R e.2 e'.2) ∧
      Sent.Readable reg nested ⟨p, b, .insert e'.1 e'.2⟩)
    fun e he ↦ by
    obtain ⟨key, value⟩ := e
    obtain ⟨⟨k, hk⟩, hv⟩ := hfit _ he
    obtain ⟨b, hb, hread⟩ := exists_writeElement m hres hv
    refine ⟨Tag.encode ⟨p.field.number, .lengthDelimited⟩ ++ writeLengthDelimited
      (Tag.encode ⟨1, s.wireType⟩ ++ k.encode ++ (Tag.encode ⟨2, p.element.wireType⟩ ++ b)),
      ?_, fun hl ↦ ?_⟩
    · simp only [MessageMarshaller.writeEntry, MessageMarshaller.writeScalar, hk,
        MessageMarshaller.writeTagged, hb, map_ok, ok_bind, pure_eq_ok]
    · rw [List.length_append] at hl
      have hfl : (writeLengthDelimited (Tag.encode ⟨1, s.wireType⟩ ++ k.encode
          ++ (Tag.encode ⟨2, p.element.wireType⟩ ++ b))).length < UInt64.size := by omega
      have hframe := Nat.lt_of_le_of_lt (length_le_writeLengthDelimited _) hfl
      simp only [List.length_append] at hframe
      obtain ⟨-, w, hw, hq⟩ := hread (by omega)
      refine ⟨(key, w), ⟨rfl, hw⟩, Sent.readable_entry hp hc hs hfl fun q hq' ↦ ?_⟩
      rw [← hq']
      exact Sent.readEntry_append hk (by omega) (hq q hq')
  refine ⟨b, hb, fun hl ↦ ?_⟩
  obtain ⟨parts, hparts, hall⟩ := hread hl
  have ho : Option.Rel (Value.Same R) (p.handed (.map es)) (some (.map (parts.map (·.2)))) := by
    rw [Plan.handed_of_cardinality rfl (by rw [hc]; decide)]
    exact .some (.map (List.forall₂_map_right_iff.2 (hall.imp fun _ _ h ↦ h.1)))
  refine ⟨_, _, Plan.sends_parts (fun e ↦ .insert e.1 e.2) parts hparts (fun part hpart ↦ ?_) rfl
    ho fun m' q ha ↦ ?_⟩
  · obtain ⟨a, -, -, h⟩ := exists_of_forall₂_right hall hpart
    exact h
  · have := fill_collect_insert m' (ha.cardinality.trans hc) (parts.map (·.2))
    rwa [List.map_map] at this

/-! ## Any field

The writer chooses by the cardinality of the field, and for single fields by whether the value
counts as the default. -/

theorem Plan.exists_sends_fit (m : MessageMarshaller) {p : Plan} {v : Value}
    (hp : p.WellFormed) (hres : p.element.Resolved reg)
    (hc : p.field.cardinality = .required ∨ p.field.cardinality = .optional)
    (hfit : p.element.Fits reg (Trips reg write nested R) v) :
    ∃ b, (if MessageMarshaller.isImplicit p && isDefault v p.field.default then .ok []
        else m.writeTagged reg write p p.field.number v) = .ok b ∧
      (b.length < UInt64.size → ∃ sent o, p.Sends reg nested R v b sent o) := by
  by_cases hd : (MessageMarshaller.isImplicit p && isDefault v p.field.default) = true
  · have hopt : p.field.cardinality = .optional := by
      rw [MessageMarshaller.isImplicit, Bool.and_eq_true, Bool.and_eq_true] at hd
      exact eq_of_beq hd.1.2
    exact ⟨[], if_pos hd, fun _ ↦ ⟨[], _, Plan.sends_nothing hopt (by rw [hd, Bool.or_true])⟩⟩
  · have hv : p.handed v = some v := by
      rw [Plan.handed, hfit.isAbsent, Bool.false_or, if_neg hd]
    rw [if_neg hd]
    exact Plan.exists_sends_single m hp hres hc hv hfit

/-- **Fields come back.** A value that fits its field is written. Every reader of what is written
collects from it the value that the field is expected to hand over. -/
theorem exists_writeField (m : MessageMarshaller) {p : Plan} {v : Value} (hp : p.WellFormed)
    (hres : p.element.Resolved reg) (hfit : p.Fits reg (Trips reg write nested R) v) :
    ∃ b, m.writeField reg write p v = .ok b ∧
      (b.length < UInt64.size → ∃ sent o, p.Sends reg nested R v b sent o) := by
  unfold Plan.Fits at hfit
  cases hc : p.field.cardinality with
  | required =>
    rw [hc] at hfit
    have hw := Plan.exists_sends_fit m hp hres (.inl hc) hfit
    simpa only [MessageMarshaller.writeField, hc, hfit.isAbsent, if_neg Bool.false_ne_true] using hw
  | optional =>
    rw [hc] at hfit
    rcases hfit with ⟨rfl, -⟩ | hfit
    · refine ⟨[], ?_, fun _ ↦ ⟨[], _, Plan.sends_nothing hc rfl⟩⟩
      simp only [MessageMarshaller.writeField, hc, Value.isAbsent, if_true]
      rfl
    · have hw := Plan.exists_sends_fit m hp hres (.inr hc) hfit
      simpa only [MessageMarshaller.writeField, hc, hfit.isAbsent, if_neg Bool.false_ne_true]
        using hw
  | repeated =>
    rw [hc] at hfit
    obtain ⟨vs, rfl, hfit⟩ := hfit
    by_cases hempty : vs.isEmpty = true
    · obtain ⟨b, hb, hsends⟩ := Plan.exists_sends_unpacked m hp hres hc hfit
      rw [List.isEmpty_iff.1 hempty] at hb hsends ⊢
      cases hb
      exact ⟨[], by simp only [MessageMarshaller.writeField, hc, List.isEmpty_nil, if_true], hsends⟩
    · by_cases hpacked : p.field.packed = true
      · obtain ⟨run, hrun, hsends⟩ := Plan.exists_sends_packed m hp hres hc hpacked hfit
        refine ⟨_, ?_, hsends⟩
        simp only [MessageMarshaller.writeField, hc, if_neg hempty, hpacked, if_true, hrun, map_ok]
      · obtain ⟨b, hb, hsends⟩ := Plan.exists_sends_unpacked m hp hres hc hfit
        refine ⟨b, ?_, hsends⟩
        simp only [MessageMarshaller.writeField, hc, if_neg hempty, if_neg hpacked, hb]
  | map =>
    rw [hc] at hfit
    obtain ⟨es, rfl, hfit⟩ := hfit
    obtain ⟨s, hs⟩ := hp.mapKey hc
    have hw := Plan.exists_sends_map m hp hres hc hs fun e he ↦ ⟨(hfit e he).1 s hs, (hfit e he).2⟩
    simpa only [MessageMarshaller.writeField, hc, hs] using hw

end ProtoSchema
