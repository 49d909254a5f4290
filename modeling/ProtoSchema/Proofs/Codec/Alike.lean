import ProtoSchema.Proofs.Codec.Decoding
import ProtoSchema.Proofs.Codec.Relating
import ProtoSchema.Proofs.Codec.Version

/-!
# Types with the same fields

Where a type keeps its fields is a matter of its layout alone. Two types that have the same fields
write the same bytes for instances of which they read the same values, and whatever one of them
makes of an input before it comes to its factories, the other one makes of it, too. Only their names
show, in errors about a field that is required.
-/

set_option autoImplicit false

namespace ProtoSchema

open Wire

/-! ## Writing

Plans are gone through in parallel. What a plan writes depends on the value that is read at its
path, and both types read the same one, so the bytes agree plan by plan. Errors are left out of
this: they may bear another name. -/

namespace MessageMarshaller

/-- Two types read the same values of their instances, field by field, and the same unknown
fields. -/
structure Corresponds (m m' : MessageMarshaller) (x x' : Instance) : Prop where
  type : x.type = m.type
  type' : x'.type = m'.type
  fields : ∀ (k : Nat) (p p' : Plan), m.plans[k]? = some p → m'.plans[k]? = some p' →
    m'.layout.get? x' p'.path = m.layout.get? x p.path
  retained : m'.retained x' = m.retained x

section

variable (m m' : MessageMarshaller) {reg : Registry} {nested nested' : NestedWriter} {p : Plan}
  (path : List Nat)

theorem toOption_writeScalar (s : Scalar) (v : Value) :
    (m'.writeScalar { p with path } s v).toOption = (m.writeScalar p s v).toOption := by
  unfold writeScalar
  cases s.toPayload? v <;> rfl

variable {v : Value}
  (h : ∀ inner (i : Instance), i.depth ≤ v.depth → nested' inner i = nested inner i)
include h

theorem toOption_writeElement :
    (m'.writeElement reg nested' { p with path } v).toOption =
      (m.writeElement reg nested p v).toOption := by
  unfold writeElement
  dsimp only
  split
  · exact toOption_writeScalar m m' path _ _
  · rfl
  · split
    · rw [h _ _ (Nat.le_of_eq (by rw [Value.depth]))]
    · rfl
  · rfl

theorem toOption_writeTagged (number : Nat) :
    (m'.writeTagged reg nested' { p with path } number v).toOption =
      (m.writeTagged reg nested p number v).toOption := by
  rw [writeTagged, writeTagged, toOption_map, toOption_map, toOption_writeElement m m' path h]

theorem toOption_writeEntry (keyType : Scalar) (key : Value) :
    (m'.writeEntry reg nested' { p with path } keyType key v).toOption =
      (m.writeEntry reg nested p keyType key v).toOption := by
  unfold writeEntry
  rw [toOption_bind, toOption_bind, toOption_writeScalar m m']
  congr 1
  funext keyBytes
  rw [toOption_bind, toOption_bind, toOption_writeTagged m m' path h]

omit h

theorem toOption_writeAll {α β : Type} {write : α → Except EncodeError Bytes}
    {write' : β → Except EncodeError Bytes} {as : List α} {bs : List β}
    (h : List.Forall₂ (fun a b ↦ (write' b).toOption = (write a).toOption) as bs) :
    (writeAll write' bs).toOption = (writeAll write as).toOption := by
  induction h with
  | nil => rfl
  | cons hab _ ih => simp only [writeAll, toOption_bind, hab, ih]

include h

theorem toOption_writeField :
    (m'.writeField reg nested' { p with path } v).toOption =
      (m.writeField reg nested p v).toOption := by
  have hsingle : (if v.isAbsent then
        if p.field.cardinality = .required then
          .error (.required m'.descriptor.qualifiedName p.field.name)
        else .ok []
      else if isImplicit p && isDefault v p.field.default then .ok []
      else m'.writeTagged reg nested' { p with path } p.field.number v).toOption =
      (if v.isAbsent then
        if p.field.cardinality = .required then
          .error (.required m.descriptor.qualifiedName p.field.name)
        else .ok []
      else if isImplicit p && isDefault v p.field.default then .ok []
      else m.writeTagged reg nested p p.field.number v).toOption := by
    repeat' split
    · rfl
    · rfl
    · rfl
    · exact toOption_writeTagged m m' path h _
  unfold writeField
  dsimp only
  split
  · exact hsingle
  · exact hsingle
  · split
    · next vs =>
      have hvs : ∀ a ∈ vs, ∀ inner (i : Instance), i.depth ≤ a.depth →
          nested' inner i = nested inner i := fun a ha inner i hi ↦
        h inner i (Nat.le_trans hi (Value.depth_le_listDepth ha))
      repeat' split
      · rfl
      · rw [toOption_map, toOption_map, toOption_writeAll (List.forall₂_same.2 fun a ha ↦
          toOption_writeElement m m' path (hvs a ha))]
      · exact toOption_writeAll (List.forall₂_same.2 fun a ha ↦
          toOption_writeTagged m m' path (hvs a ha) _)
    · rfl
  · split
    · refine toOption_writeAll (List.forall₂_same.2 fun e he ↦
        toOption_writeEntry m m' path (fun inner i hi ↦ ?_) _ _)
      exact h inner i (Nat.le_trans hi (Value.depth_le_entriesDepth he).2)
    · rfl

end

/-- **Corresponding instances are written alike.** -/
theorem Alike.toOption_write {m m' : MessageMarshaller} (halike : m.Alike m') {x x' : Instance}
    (h : m.Corresponds m' x x') (reg : Registry) :
    (reg.write m' x').toOption = (reg.write m x).toOption := by
  rw [reg.write_eq, reg.write_eq, encodeWith, encodeWith, if_pos h.type, if_pos h.type']
  have hplans : List.Forall₂ (fun p p' ↦ (m'.writePlan reg (reg.writeBelow x') x' p').toOption =
      (m.writePlan reg (reg.writeBelow x) x p).toOption) m.plans m'.plans := by
    refine forall₂_imp_getElem? halike fun k p p' hp hp' hpath ↦ ?_
    obtain ⟨path, rfl⟩ := hpath
    have hget := h.fields k p _ hp hp'
    unfold writePlan
    rw [hget]
    cases hv : m.layout.get? x p.path with
    | none => rfl
    | some v =>
      -- What is read nests less deeply than either instance.
      refine toOption_writeField m m' path fun inner i hi ↦ ?_
      rw [Registry.writeBelow, Registry.writeBelow,
        if_pos (Nat.lt_of_le_of_lt hi (Layout.depth_lt_of_get? (hget.trans hv))),
        if_pos (Nat.lt_of_le_of_lt hi (Layout.depth_lt_of_get? hv))]
  rw [toOption_bind, toOption_bind, toOption_writeAll hplans, h.retained]

end MessageMarshaller

/-! ## Reading

Both types have a plan for a number at the same position, or neither has one, and their readers of
elements agree because they ask the same registry. So the effects of the records are the same, and
from then on it is the slots that are compared, position by position. -/

/-- An error that two types report alike, up to their names. -/
inductive DecodeError.SameUpTo (name name' : String) : DecodeError → DecodeError → Prop
  | same (e : DecodeError) : SameUpTo name name' e e
  | required (field : String) : SameUpTo name name' (.required name field) (.required name' field)

theorem compositional_eq : Compositional fun _ x x' ↦ x' = x where
  ok _ := rfl
  wire _ := rfl
  bind {_ _ x _ _ _} hx hf := by
    rw [hx]
    cases x with
    | ok a => exact hf a rfl
    | error e => rfl

theorem readTrace_congr {ε α : Type} {step step' : Bytes → Logged ε (α × Bytes)}
    (h : ∀ input, (step' input).result = (step input).result) {input : Bytes}
    {trace : List (Bytes × α)} (htrace : ReadTrace step input trace) :
    ReadTrace step' input trace := by
  induction htrace with
  | nil => exact .nil
  | cons head hlt _ ih => exact .cons ((h _).trans head) hlt ih
  | last hne head hlt => exact .last hne ((h _).trans head) hlt

namespace MessageMarshaller.Alike

variable {m m' : MessageMarshaller} (h : m.Alike m')
include h

/-- **Records are read alike.** -/
theorem readRecord_eq (reg : Registry) (nested : NestedReader) (input : Bytes) :
    (m'.readRecord reg nested input).result = (m.readRecord reg nested input).result := by
  have hnested : nested.Related (fun _ x x' ↦ x' = x) reg nested :=
    ⟨id, .inl, fun _ _ _ _ ↦ rfl⟩
  exact compositional_eq.readRecord hnested h
    (fun _ _ ↦ ⟨fun _ _ ↦ rfl, fun _ _ _ _ ↦ rfl⟩) input

theorem slotAfter_eq : Draft.slotAfter m' = Draft.slotAfter m := by
  have honeof : ∀ i : Nat,
      m'.plans[i]?.bind (·.field.oneof) = m.plans[i]?.bind (·.field.oneof) := by
    intro i
    cases hi : m.plans[i]? with
    | none =>
      rw [List.getElem?_eq_none_iff, h.length_eq, ← List.getElem?_eq_none_iff] at hi
      rw [hi]
    | some p =>
      obtain ⟨_, hp, path, rfl⟩ := exists_getElem?_of_forall₂ h hi
      rw [hp]
      rfl
  have hexclude : Draft.exclude m' = Draft.exclude m := by
    funext i j
    rw [Draft.exclude, Draft.exclude, honeof, honeof]
  funext j slot e
  rw [Draft.slotAfter, Draft.slotAfter, hexclude]

theorem slot_eq (effects : List Effect) (k : Nat) : m'.slot effects k = m.slot effects k := by
  rw [slot, slot, h.slotAfter_eq]

/-- Effects leave the same in the slots. -/
theorem slots_eq (effects : List Effect) :
    (effects.foldl (Draft.apply m') (.empty m')).slots =
      (effects.foldl (Draft.apply m) (.empty m)).slots := by
  rw [Draft.slots_foldl, Draft.slots_foldl, h.slotAfter_eq, eq_comm, ← List.forall₂_eq_eq_eq]
  exact forall₂_mapIdx h fun _ _ _ _ _ ↦ rfl

omit h

theorem fill_cases (m m' : MessageMarshaller) (p : Plan) (path : List Nat) (slot : Option Value) :
    (∃ v, m.fill p slot = .ok v ∧ m'.fill { p with path } slot = .ok v) ∨
      m.fill p slot = .error (.required m.descriptor.qualifiedName p.field.name) ∧
        m'.fill { p with path } slot =
          .error (.required m'.descriptor.qualifiedName p.field.name) := by
  unfold fill
  cases slot with
  | some v => exact .inl ⟨_, rfl, rfl⟩
  | none =>
    dsimp only
    cases p.field.cardinality with
    | required => exact .inr ⟨rfl, rfl⟩
    | optional | repeated | map => exact .inl ⟨_, rfl, rfl⟩

theorem fills_cases (m m' : MessageMarshaller) {plans plans' : List Plan}
    (h : List.Forall₂ (fun p p' ↦ ∃ path, p' = { p with path }) plans plans')
    (slots : List (Option Value)) :
    (∃ values, (plans.zip slots).mapM (fun e ↦ m.fill e.1 e.2) = .ok values ∧
        (plans'.zip slots).mapM (fun e ↦ m'.fill e.1 e.2) = .ok values) ∨
      ∃ field, (plans.zip slots).mapM (fun e ↦ m.fill e.1 e.2) =
          .error (.required m.descriptor.qualifiedName field) ∧
        (plans'.zip slots).mapM (fun e ↦ m'.fill e.1 e.2) =
          .error (.required m'.descriptor.qualifiedName field) := by
  induction h generalizing slots with
  | nil => exact .inl ⟨[], rfl, rfl⟩
  | @cons p _ plans plans' hpath _ ih =>
    obtain ⟨path, rfl⟩ := hpath
    cases slots with
    | nil => exact .inl ⟨[], rfl, rfl⟩
    | cons slot rest =>
      rw [List.zip_cons_cons, List.zip_cons_cons, List.mapM_cons, List.mapM_cons]
      rcases fill_cases m m' p path slot with ⟨v, hv, hv'⟩ | ⟨hv, hv'⟩
      · rcases ih rest with ⟨values, hvalues, hvalues'⟩ | ⟨field, hfield, hfield'⟩
        · exact .inl ⟨v :: values, by rw [hv, ok_bind, hvalues]; rfl,
            by rw [hv', ok_bind, hvalues']; rfl⟩
        · exact .inr ⟨field, by rw [hv, ok_bind, hfield]; rfl, by rw [hv', ok_bind, hfield']; rfl⟩
      · exact .inr ⟨p.field.name, by rw [hv]; rfl, by rw [hv']; rfl⟩

include h

/-- **The same values are handed over**, or the same required field is missing. -/
theorem handing_cases (hm : m.WellFormed) (hm' : m'.WellFormed) (effects : List Effect) :
    (∃ hand hand', m.handing effects = .ok hand ∧ m'.handing effects = .ok hand' ∧
        ∀ (k : Nat) (p p' : Plan), m.plans[k]? = some p → m'.plans[k]? = some p' →
          hand' p'.path = hand p.path) ∨
      ∃ field, m.handing effects = .error (.required m.descriptor.qualifiedName field) ∧
        m'.handing effects = .error (.required m'.descriptor.qualifiedName field) := by
  unfold handing
  rw [h.slots_eq]
  rcases fills_cases m m' h (effects.foldl (Draft.apply m) (.empty m)).slots with
    ⟨values, hvalues, hvalues'⟩ | ⟨field, hfield, hfield'⟩
  · refine .inl ⟨_, _, by rw [hvalues, map_ok], by rw [hvalues', map_ok], fun k p p' hp hp' ↦ ?_⟩
    have hfill := fill_of_handing hm (by rw [handing, hvalues, map_ok]) hp
    have hfill' := fill_of_handing hm' (by rw [handing, h.slots_eq, hvalues', map_ok]) hp'
    obtain ⟨q, hq, path, rfl⟩ := exists_getElem?_of_forall₂ h hp
    obtain rfl := Option.some.inj (hq.symm.trans hp')
    rw [h.slot_eq] at hfill'
    rcases fill_cases m m' p path (m.slot effects k) with ⟨v, hv, hv'⟩ | ⟨hv, -⟩
    · rw [hv] at hfill
      rw [hv'] at hfill'
      exact (Except.ok.inj hfill').symm.trans (Except.ok.inj hfill)
    · cases hv.symm.trans hfill
  · exact .inr ⟨field, by rw [hfield, map_error], by rw [hfield', map_error]⟩

/-- **Inputs are read alike.** Reading fails in the same way for both types, or it comes to the same
records and hands the same values over. -/
theorem decodeWith_cases (hm : m.WellFormed) (hm' : m'.WellFormed) (reg : Registry)
    (nested : NestedReader) (input : Bytes) :
    (∃ e e', (m.decodeWith reg nested input).result = .error e ∧
        (m'.decodeWith reg nested input).result = .error e' ∧
        e.SameUpTo m.descriptor.qualifiedName m'.descriptor.qualifiedName e') ∨
      ∃ records hand hand', ReadTrace (m.readRecord reg nested) input records ∧
        ReadTrace (m'.readRecord reg nested) input records ∧
        m.handing (records.map (·.2)) = .ok hand ∧ m'.handing (records.map (·.2)) = .ok hand' ∧
        ∀ (k : Nat) (p p' : Plan), m.plans[k]? = some p → m'.plans[k]? = some p' →
          hand' p'.path = hand p.path := by
  have hread := compositional_eq.readAll (h.readRecord_eq reg nested) input
  cases heffects : (readAll (m.readRecord reg nested) input).result with
  | error e =>
    rw [heffects] at hread
    refine .inl ⟨e, e, ?_, ?_, .same e⟩
    · rw [Draft.result_decodeWith, heffects, error_bind]
    · rw [Draft.result_decodeWith, hread, error_bind]
  | ok effects =>
    rw [heffects] at hread
    obtain ⟨records, htrace, rfl⟩ := readAll_eq_ok.1 heffects
    rcases h.handing_cases hm hm' (records.map (·.2)) with
      ⟨hand, hand', hhand, hhand', hsame⟩ | ⟨field, hfield, hfield'⟩
    · exact .inr ⟨records, hand, hand', htrace, readTrace_congr (h.readRecord_eq reg nested) htrace,
        hhand, hhand', hsame⟩
    · refine .inl ⟨_, _, ?_, ?_, .required field⟩
      · rw [Draft.result_decodeWith, heffects, ok_bind, Draft.result_finish, map_eq_error.1 hfield,
          error_bind]
      · rw [Draft.result_decodeWith, hread, ok_bind, Draft.result_finish, map_eq_error.1 hfield',
          error_bind]

end MessageMarshaller.Alike

end ProtoSchema
