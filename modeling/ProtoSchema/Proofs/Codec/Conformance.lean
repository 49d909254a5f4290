import ProtoSchema.Proofs.Codec.Storing
import ProtoSchema.Proofs.Codec.Version
import ProtoSchema.Proofs.Compilation.Compiled
import ProtoSchema.Proofs.Wire.Framing

/-!
# Encoding conforms to the descriptor

What is encoded parses as the records that the descriptor calls for. This is said without mention of
how it is written: which records there are depends on the fields and their values, each record has
the number of its field and the wire type that the descriptor gives, and what is framed is again
said by what it parses as, be it a packed run, an entry of a map or a nested message. A reader that
knows the descriptor and nothing of this library finds its way.

Nested messages nest less deeply than the instance that they are read from, and it is this depth
that the definition and the induction go by. Plans have to agree with the descriptor, wire types
included, which is why the marshallers have to be compiled ones.
-/

set_option autoImplicit false

namespace ProtoSchema

open Wire

/-! ## What a descriptor calls for

Payloads carry elements, records bear values, and fields lay out records: these three are said of
bytes and values, with a predicate for the frames of nested instances. Only at the end is the
predicate closed, at one level of nesting after the other. -/

/-- Which frames nested instances may have. -/
abbrev Nesting := TypeId → Instance → Bytes → Prop

/-- A payload carries the value of an element. -/
def Element.Carries (N : Nesting) : Element → Value → Payload → Prop
  | scalar s, v, p => s.toPayload? v = some p
  | enum _ _, .enum n, p => p = .varint n.toInt64.toUInt64
  | message target, .message i, .bytes frame => N target i frame
  | _, _, _ => False

namespace Plan

/-- A single value that needs no record: it is absent, or its field cannot tell it from a missing
one. -/
def leavesOut (p : Plan) (v : Value) : Bool :=
  v.isAbsent || (MessageMarshaller.isImplicit p && isDefault v p.field.default)

/-- A record of a field carries one value in the wire type of the descriptor. -/
structure Bears (p : Plan) (N : Nesting) (v : Value) (r : Record) : Prop where
  number : r.number = p.field.number
  wireType : r.payload.wireType = p.field.wireType
  carries : p.element.Carries N v r.payload

/-- A record of a map frames one entry: a record for its key and then one for its value. -/
structure BearsEntry (p : Plan) (N : Nesting) (key : Scalar) (e : Value × Value) (r : Record) :
    Prop where
  number : r.number = p.field.number
  frames : ∃ frame k w, r.payload = .bytes frame ∧ Records frame [⟨1, k⟩, ⟨2, w⟩] ∧
    k.wireType = key.wireType ∧ key.toPayload? e.1 = some k ∧
    w.wireType = p.field.type.wireType ∧ p.element.Carries N e.2 w

/-- The records of a field that holds a value. -/
inductive Lays (p : Plan) (N : Nesting) : Value → List Record → Prop
  | omitted {v : Value} (hc : p.field.cardinality = .optional) (hv : p.leavesOut v = true) :
      Lays p N v []
  | single {v : Value} {r : Record}
      (hc : p.field.cardinality = .required ∨ p.field.cardinality = .optional)
      (hv : p.leavesOut v = false) (hr : p.Bears N v r) : Lays p N v [r]
  | empty (hc : p.field.cardinality = .repeated) : Lays p N (.list []) []
  | packed {vs : List Value} {run : Bytes} {payloads : List Payload}
      (hc : p.field.cardinality = .repeated) (hpacked : p.field.packed = true) (hne : vs ≠ [])
      (hrun : Run p.field.wireType run payloads)
      (hall : List.Forall₂ (p.element.Carries N) vs payloads) :
      Lays p N (.list vs) [⟨p.field.number, .bytes run⟩]
  | unpacked {vs : List Value} {rs : List Record} (hc : p.field.cardinality = .repeated)
      (hpacked : p.field.packed = false) (hall : List.Forall₂ (p.Bears N) vs rs) :
      Lays p N (.list vs) rs
  | map {es : List (Value × Value)} {rs : List Record} {key : Scalar}
      (hc : p.field.cardinality = .map) (hkey : p.field.mapKey = some key)
      (hall : List.Forall₂ (p.BearsEntry N key) es rs) : Lays p N (.map es) rs

end Plan

/-- Bytes are the records of the fields of a descriptor, in order, and behind them the unknown
fields that the instance retains. -/
structure MessageMarshaller.Lays (m : MessageMarshaller) (N : Nesting) (i : Instance)
    (out : Bytes) : Prop where
  fields : m.plans.map (·.field) = m.descriptor.fields
  records : ∃ (head : Bytes) (groups : List (List Record)),
    List.Forall₂ (fun p rs ↦ ∃ v, m.layout.get? i p.path = some v ∧ p.Lays N v rs) m.plans groups ∧
    Records head groups.flatten ∧ out = head ++ (m.retained i).bytes ∧
    ∀ unknown, Records (m.retained i).bytes unknown → Records out (groups.flatten ++ unknown)

/-- Bytes are what the descriptors call for, those of nested messages included. -/
def Registry.Conforms (reg : Registry) (m : MessageMarshaller) (i : Instance) (out : Bytes) :
    Prop :=
  m.Lays (fun target j frame ↦ ∃ _ : j.depth < i.depth, ∃ inner,
    reg.messageMarshaller? target = some inner ∧ reg.Conforms inner j frame) i out
termination_by i.depth

/-! ## Nested frames

Whatever is said with more frames for nested instances is still said of what was laid out with
fewer. -/

section

variable {N N' : Nesting} {p : Plan}

theorem Element.Carries.mono {e : Element} {v : Value} {payload : Payload}
    (hN : ∀ t j frame, N t j frame → N' t j frame) (h : e.Carries N v payload) :
    e.Carries N' v payload := by
  unfold Carries at h
  split at h
  · exact h
  · exact h
  · exact hN _ _ _ h
  · exact h.elim

theorem Plan.Lays.mono (hN : ∀ t j frame, N t j frame → N' t j frame) {v : Value}
    {rs : List Record} (h : p.Lays N v rs) : p.Lays N' v rs := by
  cases h with
  | omitted hc hv => exact .omitted hc hv
  | single hc hv hr => exact .single hc hv { hr with carries := hr.carries.mono hN }
  | empty hc => exact .empty hc
  | packed hc hpacked hne hrun hall =>
    exact .packed hc hpacked hne hrun (hall.imp fun _ _ h ↦ h.mono hN)
  | unpacked hc hpacked hall =>
    exact .unpacked hc hpacked (hall.imp fun _ _ h ↦ { h with carries := h.carries.mono hN })
  | map hc hkey hall =>
    refine .map hc hkey (hall.imp fun e r h ↦ ⟨h.number, ?_⟩)
    obtain ⟨frame, k, w, hr, hframe, hk, hkey, hw, hcarries⟩ := h.frames
    exact ⟨frame, k, w, hr, hframe, hk, hkey, hw, hcarries.mono hN⟩

theorem MessageMarshaller.Lays.mono {m : MessageMarshaller} {i : Instance} {out : Bytes}
    (hN : ∀ t j frame, N t j frame → N' t j frame) (h : m.Lays N i out) : m.Lays N' i out := by
  obtain ⟨head, groups, hall, hrecords⟩ := h.records
  refine ⟨h.fields, head, groups, hall.imp fun p rs h ↦ ?_, hrecords⟩
  obtain ⟨v, hv, hlays⟩ := h
  exact ⟨v, hv, hlays.mono hN⟩

end

/-! ## Plans and their wire types

A plan has its element from the binding of its field, and the descriptor has its wire type from the
type of the field. Both were derived from one member, so they agree. -/

/-- A plan writes in the wire types of the descriptor. -/
structure Plan.Framed (p : Plan) : Prop where
  type : p.field.type.wireType = p.element.wireType
  field : p.field.cardinality ≠ .map → p.field.wireType = p.element.wireType

theorem Element.Describes.wireType {e : Element} {type : ValueType} {b : Binding}
    (h : e.Describes type b) : type.wireType = e.wireType := by
  cases type with
  | scalar s => rw [show e = .scalar s from h, ValueType.wireType, Element.wireType]
  | enum name | message name =>
    obtain ⟨t, -, rfl⟩ := h
    rfl

theorem MessageMarshaller.MadeOf.exists_member {m : MessageMarshaller} {env : Environment}
    {resolve : Resolver} {info : TypeInfo} {message : MessageInfo}
    (h : m.MadeOf env resolve info message) {p : Plan} (hp : p ∈ m.plans) :
    ∃ (member : Member) (path : List Nat) (b : Binding),
      member.toField env resolve info.path path = .ok (p.field, b) ∧
      p.element.Describes p.field.type b := by
  obtain ⟨name, built, hbuild, hcompile⟩ := h.built
  obtain ⟨-, declared, hdeclared, -, -, rfl⟩ := buildMessage_eq_ok.1 hbuild
  obtain ⟨-, -, -, hplans⟩ := compile_eq_ok hcompile
  rw [List.zip_map', List.forall₂_map_left_iff] at hplans
  obtain ⟨d, hd, hof⟩ := exists_of_forall₂_right hplans hp
  obtain ⟨leaf, -, path, member, -, hfield⟩ :=
    exists_of_forall₂_right (forall₂_of_checkLeaves hdeclared) hd
  obtain ⟨hpf, -, -, hdescribes⟩ := planOf_eq_ok hof
  rw [← hpf] at hdescribes
  exact ⟨member, path, d.binding, hpf ▸ hfield, hdescribes⟩

theorem MessageMarshaller.MadeOf.framed {m : MessageMarshaller} {env : Environment}
    {resolve : Resolver} {info : TypeInfo} {message : MessageInfo}
    (h : m.MadeOf env resolve info message) : ∀ p ∈ m.plans, p.Framed := by
  intro p hp
  obtain ⟨member, path, b, hfield, hdescribes⟩ := h.exists_member hp
  obtain ⟨s, hmember⟩ := Member.passes_of_toField hfield
  refine ⟨hdescribes.wireType, fun hmap ↦ ?_⟩
  rw [hmember.cardinality] at hmap
  rw [hmember.wireType, if_neg hmap, hdescribes.wireType]

/-! ## What is written

The writers are taken apart from the inside out. A value behind a tag is one record, an entry is one
that frames two, and what is written of a list is its records in a row, or one record that frames
the run of its payloads. -/

section

variable {reg : Registry} {write : NestedWriter} {m : MessageMarshaller} {p : Plan}

/-- Nested frames are what a writer gives for registered types. -/
def NestedWriter.Gives (write : NestedWriter) (reg : Registry) : Nesting := fun target j frame ↦
  ∃ inner, reg.messageMarshaller? target = some inner ∧ write inner j = .ok frame ∧
    frame.length < UInt64.size

theorem writeElement_eq_ok {v : Value} {b : Bytes} (h : m.writeElement reg write p v = .ok b)
    (hl : b.length < UInt64.size) :
    ∃ payload, b = payload.encode ∧ payload.wireType = p.element.wireType ∧
      p.element.Carries (write.Gives reg) v payload := by
  unfold MessageMarshaller.writeElement at h
  split at h
  · next s v he =>
    unfold MessageMarshaller.writeScalar at h
    split at h
    · next payload hpayload =>
      cases h
      rw [he]
      exact ⟨payload, rfl, Scalar.wireType_of_toPayload? hpayload, hpayload⟩
    · cases h
  · next he =>
    cases h
    rw [he]
    exact ⟨.varint _, rfl, rfl, rfl⟩
  · next target i he =>
    split at h
    · next inner hinner =>
      obtain ⟨frame, hframe, rfl⟩ := map_eq_ok.1 h
      rw [he]
      exact ⟨.bytes frame, rfl, rfl, inner, hinner, hframe,
        Nat.lt_of_le_of_lt (length_le_writeLengthDelimited frame) hl⟩
    · cases h
  · cases h

theorem writeTagged_eq_ok {number : Nat} {v : Value} {b : Bytes}
    (h : m.writeTagged reg write p number v = .ok b) (hl : b.length < UInt64.size) :
    ∃ r : Record, b = r.encode ∧ r.number = number ∧ r.payload.wireType = p.element.wireType ∧
      p.element.Carries (write.Gives reg) v r.payload := by
  obtain ⟨c, hc, rfl⟩ := map_eq_ok.1 h
  rw [List.length_append] at hl
  obtain ⟨payload, rfl, hw, hcarries⟩ := writeElement_eq_ok hc (by omega)
  exact ⟨⟨number, payload⟩, by rw [Record.encode, Record.tag, hw], rfl, hw, hcarries⟩

theorem writeEntry_eq_ok (hp : p.Framed) {key : Scalar} {e : Value × Value} {b : Bytes}
    (h : m.writeEntry reg write p key e.1 e.2 = .ok b) (hl : b.length < UInt64.size) :
    ∃ r : Record, b = r.encode ∧ p.BearsEntry (write.Gives reg) key e r := by
  obtain ⟨keyBytes, hkey, h⟩ := bind_eq_ok.1 h
  obtain ⟨valueBytes, hvalue, h⟩ := bind_eq_ok.1 h
  cases h
  unfold MessageMarshaller.writeScalar at hkey
  split at hkey
  · next k hk =>
    cases hkey
    have hkeyType := Scalar.wireType_of_toPayload? hk
    -- The key is written behind a tag of its own type, which is that of its payload.
    have hkeyRecord : Tag.encode ⟨1, key.wireType⟩ ++ k.encode = Record.encode ⟨1, k⟩ := by
      rw [Record.encode, Record.tag, hkeyType]
    rw [hkeyRecord] at hl ⊢
    have hframe := length_le_writeLengthDelimited (Record.encode ⟨1, k⟩ ++ valueBytes)
    rw [List.length_append] at hl hframe
    obtain ⟨⟨number, w⟩, rfl, rfl, hw, hcarries⟩ := writeTagged_eq_ok hvalue (by omega)
    have hfirst : Records (Record.encode ⟨1, k⟩) [⟨1, k⟩] :=
      .of_encode (show 1 ≤ 1 ∧ 1 ≤ maxFieldNumber by decide) (by omega)
    have hsecond : Records (Record.encode ⟨2, w⟩) [⟨2, w⟩] :=
      .of_encode (show 1 ≤ 2 ∧ 2 ≤ maxFieldNumber by decide) (by omega)
    exact ⟨⟨p.field.number, .bytes (Record.encode ⟨1, k⟩ ++ Record.encode ⟨2, w⟩)⟩, rfl, rfl, _, k,
      w,
      rfl, hfirst.append hsecond, hkeyType, hk, hw.trans hp.type.symm, hcarries⟩
  · cases hkey

theorem writeAll_eq_ok {α γ : Type} {f : α → Except EncodeError Bytes} {l : List α} {b : Bytes}
    (encode : γ → Bytes) (Good : α → γ → Prop) (h : MessageMarshaller.writeAll f l = .ok b)
    (hl : b.length < UInt64.size)
    (hgood : ∀ a ∈ l, ∀ c, f a = .ok c → c.length < UInt64.size → ∃ x, c = encode x ∧ Good a x) :
    ∃ xs, b = xs.flatMap encode ∧ List.Forall₂ Good l xs := by
  induction l generalizing b with
  | nil =>
    cases h
    exact ⟨[], rfl, .nil⟩
  | cons a rest ih =>
    obtain ⟨hfirst, hrest⟩ := List.forall_mem_cons.1 hgood
    obtain ⟨c, hc, h⟩ := bind_eq_ok.1 h
    obtain ⟨cs, hcs, h⟩ := bind_eq_ok.1 h
    cases h
    rw [List.length_append] at hl
    obtain ⟨x, rfl, hx⟩ := hfirst c hc (by omega)
    obtain ⟨xs, rfl, hxs⟩ := ih hcs (by omega) hrest
    exact ⟨x :: xs, by rw [List.flatMap_cons], .cons hx hxs⟩

theorem bears_of_writeAll (hp : p.Framed) (hmap : p.field.cardinality ≠ .map) {vs : List Value}
    {b : Bytes}
    (h : MessageMarshaller.writeAll (m.writeTagged reg write p p.field.number) vs = .ok b)
    (hl : b.length < UInt64.size) :
    ∃ rs, b = rs.flatMap Record.encode ∧ List.Forall₂ (p.Bears (write.Gives reg)) vs rs := by
  refine writeAll_eq_ok Record.encode _ h hl fun v _ c hc hlc ↦ ?_
  obtain ⟨r, rfl, hnumber, hw, hcarries⟩ := writeTagged_eq_ok hc hlc
  exact ⟨r, rfl, hnumber, hw.trans (hp.field hmap).symm, hcarries⟩

theorem run_of_writeAll (hp : p.Framed) (hmap : p.field.cardinality ≠ .map) {vs : List Value}
    {run : Bytes} (h : MessageMarshaller.writeAll (m.writeElement reg write p) vs = .ok run)
    (hl : run.length < UInt64.size) :
    ∃ payloads, Run p.field.wireType run payloads ∧
      List.Forall₂ (p.element.Carries (write.Gives reg)) vs payloads := by
  obtain ⟨payloads, rfl, hall⟩ := writeAll_eq_ok Payload.encode
    (fun v payload ↦ payload.wireType = p.element.wireType ∧
      p.element.Carries (write.Gives reg) v payload) h hl
        fun v _ c hc hlc ↦ writeElement_eq_ok hc hlc
  refine ⟨payloads, ?_, hall.imp fun _ _ h ↦ h.2⟩
  rw [hp.field hmap]
  refine run_flatMap_encode (fun payload hpayload ↦ ?_) hl
  obtain ⟨v, -, hw, -⟩ := exists_of_forall₂_right hall hpayload
  exact hw

theorem lays_of_writeTagged (hp : p.Framed)
    (hc : p.field.cardinality = .required ∨ p.field.cardinality = .optional) {v : Value} {b : Bytes}
    (hv : p.leavesOut v = false) (h : m.writeTagged reg write p p.field.number v = .ok b)
    (hl : b.length < UInt64.size) :
    ∃ rs : List Record, b = rs.flatMap Record.encode ∧ p.Lays (write.Gives reg) v rs := by
  have hmap : p.field.cardinality ≠ .map := by
    rcases hc with hc | hc <;> rw [hc] <;> decide
  obtain ⟨r, rfl, hnumber, hw, hcarries⟩ := writeTagged_eq_ok h hl
  exact ⟨[r], (List.flatMap_singleton _ _).symm,
    .single hc hv ⟨hnumber, hw.trans (hp.field hmap).symm, hcarries⟩⟩

variable {v : Value} {b : Bytes}

theorem lays_of_required (hp : p.Framed) (hc : p.field.cardinality = .required)
    (h : m.writeField reg write p v = .ok b) (hl : b.length < UInt64.size) :
    ∃ rs : List Record, b = rs.flatMap Record.encode ∧ p.Lays (write.Gives reg) v rs := by
  -- A required value is written even if it is the default.
  have himplicit : MessageMarshaller.isImplicit p = false := by
    rw [MessageMarshaller.isImplicit, hc]
    exact Bool.and_false _
  simp only [MessageMarshaller.writeField, hc, himplicit, Bool.false_and, if_pos] at h
  by_cases habsent : v.isAbsent = true
  · rw [if_pos habsent] at h
    cases h
  · rw [if_neg habsent, if_neg Bool.false_ne_true] at h
    have hv : p.leavesOut v = false := by
      rw [Plan.leavesOut, himplicit, Bool.false_and, Bool.or_false]
      exact Bool.eq_false_iff.2 habsent
    exact lays_of_writeTagged hp (.inl hc) hv h hl

theorem lays_of_optional (hp : p.Framed) (hc : p.field.cardinality = .optional)
    (h : m.writeField reg write p v = .ok b) (hl : b.length < UInt64.size) :
    ∃ rs : List Record, b = rs.flatMap Record.encode ∧ p.Lays (write.Gives reg) v rs := by
  have hif : (if v.isAbsent then .ok [] else
      if MessageMarshaller.isImplicit p && isDefault v p.field.default then .ok []
      else m.writeTagged reg write p p.field.number v) = Except.ok b := by
    simpa [MessageMarshaller.writeField, hc] using h
  by_cases hv : p.leavesOut v = true
  · have hnil : b = [] := by
      rw [Plan.leavesOut, Bool.or_eq_true] at hv
      split at hif
      · cases hif
        rfl
      · next hpresent =>
        rw [if_pos (hv.resolve_left hpresent)] at hif
        cases hif
        rfl
    exact ⟨[], hnil, .omitted hc hv⟩
  · rw [Bool.not_eq_true] at hv
    have hparts := hv
    rw [Plan.leavesOut, Bool.or_eq_false_iff] at hparts
    rw [if_neg (Bool.eq_false_iff.1 hparts.1), if_neg (Bool.eq_false_iff.1 hparts.2)] at hif
    exact lays_of_writeTagged hp (.inr hc) hv hif hl

theorem lays_of_repeated (hp : p.Framed) (hc : p.field.cardinality = .repeated)
    (h : m.writeField reg write p v = .ok b) (hl : b.length < UInt64.size) :
    ∃ rs : List Record, b = rs.flatMap Record.encode ∧ p.Lays (write.Gives reg) v rs := by
  have hmap : p.field.cardinality ≠ .map := by
    rw [hc]
    decide
  simp only [MessageMarshaller.writeField, hc] at h
  split at h
  · next vs =>
    by_cases hempty : vs = []
    · subst hempty
      cases h
      exact ⟨[], rfl, .empty hc⟩
    · rw [if_neg (by simpa using hempty)] at h
      by_cases hpacked : p.field.packed = true
      · rw [if_pos hpacked] at h
        obtain ⟨run, hrun, rfl⟩ := map_eq_ok.1 h
        have hframe := length_le_writeLengthDelimited run
        rw [List.length_append] at hl
        obtain ⟨payloads, hpayloads, hall⟩ := run_of_writeAll hp hmap hrun (by omega)
        exact ⟨[⟨p.field.number, .bytes run⟩], (List.flatMap_singleton _ _).symm,
          .packed hc hpacked hempty hpayloads hall⟩
      · rw [if_neg hpacked] at h
        obtain ⟨rs, rfl, hall⟩ := bears_of_writeAll hp hmap h hl
        exact ⟨rs, rfl, .unpacked hc (Bool.eq_false_iff.2 hpacked) hall⟩
  · cases h

theorem lays_of_map (hp : p.Framed) (hc : p.field.cardinality = .map)
    (h : m.writeField reg write p v = .ok b) (hl : b.length < UInt64.size) :
    ∃ rs : List Record, b = rs.flatMap Record.encode ∧ p.Lays (write.Gives reg) v rs := by
  simp only [MessageMarshaller.writeField, hc] at h
  split at h
  · next es key hkey =>
    obtain ⟨rs, rfl, hall⟩ := writeAll_eq_ok Record.encode (p.BearsEntry (write.Gives reg) key) h
      hl fun e _ c hentry hlc ↦ writeEntry_eq_ok hp hentry hlc
    exact ⟨rs, rfl, .map hc hkey hall⟩
  · cases h

/-- **Fields are laid out** as the descriptor says. -/
theorem lays_of_writeField (hp : p.Framed) (h : m.writeField reg write p v = .ok b)
    (hl : b.length < UInt64.size) :
    ∃ rs : List Record, b = rs.flatMap Record.encode ∧ p.Lays (write.Gives reg) v rs := by
  cases hc : p.field.cardinality with
  | required => exact lays_of_required hp hc h hl
  | optional => exact lays_of_optional hp hc h hl
  | repeated => exact lays_of_repeated hp hc h hl
  | map => exact lays_of_map hp hc h hl

theorem Plan.Lays.number {N : Nesting} {rs : List Record} (h : p.Lays N v rs) :
    ∀ r ∈ rs, r.number = p.field.number := by
  cases h with
  | omitted _ _ | empty _ => exact fun r hr ↦ absurd hr List.not_mem_nil
  | single _ _ hr => exact List.forall_mem_singleton.2 hr.number
  | packed _ _ _ _ _ => exact List.forall_mem_singleton.2 rfl
  | unpacked _ _ hall =>
    intro r hr
    obtain ⟨v, -, hbears⟩ := exists_of_forall₂_right hall hr
    exact hbears.number
  | map _ _ hall =>
    intro r hr
    obtain ⟨e, -, hbears⟩ := exists_of_forall₂_right hall hr
    exact hbears.number

theorem lays_of_encodeWith {env : Environment} {resolve : Resolver} {info : TypeInfo}
    {message : MessageInfo} {i : Instance} {out : Bytes} (hm : m.MadeOf env resolve info message)
    (h : m.encodeWith reg write i = .ok out) (hl : out.length < UInt64.size) :
    m.Lays (write.Gives reg) i out := by
  unfold MessageMarshaller.encodeWith at h
  split at h
  · obtain ⟨head, hhead, h⟩ := bind_eq_ok.1 h
    cases h
    rw [List.length_append] at hl
    obtain ⟨groups, rfl, hall⟩ := writeAll_eq_ok (fun rs : List Record ↦ rs.flatMap Record.encode)
      (fun p rs ↦ ∃ v, m.layout.get? i p.path = some v ∧ p.Lays (write.Gives reg) v rs) hhead
      (by omega) fun p hp c hc hlc ↦ by
        unfold MessageMarshaller.writePlan at hc
        split at hc
        · next v hv =>
          obtain ⟨rs, hrs, hlays⟩ := lays_of_writeField (hm.framed p hp) hc hlc
          exact ⟨rs, hrs, v, hv, hlays⟩
        · cases hc
    -- A key cannot hold every number, but it can hold those of checked fields.
    have hvalid : ∀ r ∈ groups.flatten, r.tag.IsValid := by
      intro r hr
      obtain ⟨rs, hrs, hr⟩ := List.mem_flatten.1 hr
      obtain ⟨p, hp, v, -, hlays⟩ := exists_of_forall₂_right hall hrs
      have hnumber := (hm.wellFormed.plans p hp).number
      rw [← hlays.number r hr] at hnumber
      exact hnumber
    have hflatten : groups.flatMap (fun rs : List Record ↦ rs.flatMap Record.encode) =
        groups.flatten.flatMap Record.encode := by
      rw [← List.flatMap_id, List.flatMap_assoc]
      rfl
    rw [hflatten] at hl ⊢
    have hrecords := records_flatMap_encode hvalid (by omega)
    exact ⟨hm.fields, _, groups, hall, hrecords, rfl, fun unknown hunknown ↦
      hrecords.append hunknown⟩
  · cases h

end

/-- **Encoding conforms to the descriptor.** Whatever a compiled message type encodes, with
marshallers of compiled types for what nests in it, is what the descriptors call for, through all
levels of nesting. The bytes are fewer than a word can count, as those of every buffer are. -/
theorem Registry.conforms_of_write {reg : Registry} {m : MessageMarshaller} {i : Instance}
    {out : Bytes} (hm : m.Compiled)
    (hreg : ∀ t inner, reg.messageMarshaller? t = some inner → inner.Compiled)
    (h : reg.write m i = .ok out) (hl : out.length < UInt64.size) : reg.Conforms m i out := by
  -- What nests in an instance is less deep, and it is written by the same function.
  induction hn : i.depth using Nat.strongRecOn generalizing m i out with
  | ind n ih =>
    obtain ⟨env, resolve, info, message, hmade⟩ := hm.exists_madeOf
    rw [write_eq] at h
    rw [Conforms]
    refine (lays_of_encodeWith hmade h hl).mono fun target j frame hgives ↦ ?_
    obtain ⟨inner, hinner, hframe, hlframe⟩ := hgives
    unfold writeBelow at hframe
    split at hframe
    · next hlt =>
      exact ⟨hlt, inner, hinner, ih j.depth (hn ▸ hlt) (hreg target inner hinner) hframe hlframe
        rfl⟩
    · cases hframe

/-- The account is written as its name, the frame of its owner, the packed run of its codes and the
record that it retains. -/
theorem Bank.conforms_sample : ∃ m, registry.messageMarshaller? account = some m ∧
    registry.write m sample = .ok
      [0x0a, 7, 0x73, 0x61, 0x76, 0x69, 0x6e, 0x67, 0x73, 0x12, 2, 8, 5, 0x22, 3, 1, 0xac, 2,
        0x48, 1] ∧
    registry.Conforms m sample
      [0x0a, 7, 0x73, 0x61, 0x76, 0x69, 0x6e, 0x67, 0x73, 0x12, 2, 8, 5, 0x22, 3, 1, 0xac, 2,
        0x48, 1] := by
  obtain ⟨m, hm, htype, -⟩ := exists_account
  have hencode : (registry.encode sample).toOption = some
      [0x0a, 7, 0x73, 0x61, 0x76, 0x69, 0x6e, 0x67, 0x73, 0x12, 2, 8, 5, 0x22, 3, 1, 0xac, 2,
        0x48, 1] := by
    decide +kernel
  have hwrite := toOption_eq_some.1 hencode
  rw [Registry.encode, show sample.type = account from rfl, hm] at hwrite
  exact ⟨m, hm, hwrite, Registry.conforms_of_write (compiled_registry.marshaller hm)
    (fun t inner hinner ↦ compiled_registry.marshaller hinner) hwrite (by decide)⟩

end ProtoSchema
