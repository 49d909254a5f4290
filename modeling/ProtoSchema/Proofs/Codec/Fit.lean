import Mathlib.Data.List.Forall2
import ProtoSchema.Codec.Decode
import ProtoSchema.Codec.Encode

/-!
# Values that fit their fields

What it means for a value to be of the shape that a field declares, and when two values count as
the same. Both notions leave nested instances to a parameter, a predicate or a relation on
instances, so that the laws about fields are proved once and serve every level of nesting: the
parameter says what the level below is known to do.

`Plan.handed` is the other half of the vocabulary. It says, without mentioning bytes, which value a
reader hands to the factory for a field that was written with a given value: the value itself, or
the declared default where the writer left the field out.
-/

set_option autoImplicit false

namespace ProtoSchema

open Wire

/-! ## Equality up to nested instances

A plain value is the same only as itself, and two values that hold instances are the same if these
are related, place by place. Where instances are related by equality, nothing else is left. -/

namespace Value

/-- Whether a value holds no instance and no elements. -/
def isPlain : Value → Bool
  | message _ | list _ | map _ => false
  | _ => true

/-- Equality of elements up to nested instances, which are related instead. -/
inductive SameElement (R : Instance → Instance → Prop) : Value → Value → Prop
  | plain {v : Value} (h : v.isPlain = true) : SameElement R v v
  | message {i j : Instance} (h : R i j) : SameElement R (.message i) (.message j)

/-- Equality of values up to nested instances, which are related instead. -/
inductive Same (R : Instance → Instance → Prop) : Value → Value → Prop
  | element {v w : Value} (h : SameElement R v w) : Same R v w
  | list {vs ws : List Value} (h : List.Forall₂ (SameElement R) vs ws) :
      Same R (.list vs) (.list ws)
  | map {es fs : List (Value × Value)}
      (h : List.Forall₂ (fun e f ↦ e.1 = f.1 ∧ SameElement R e.2 f.2) es fs) :
      Same R (.map es) (.map fs)

variable {R S : Instance → Instance → Prop}

theorem SameElement.mono (hRS : ∀ i j, R i j → S i j) {v w : Value} (h : SameElement R v w) :
    SameElement S v w := by
  cases h with
  | plain h => exact .plain h
  | message h => exact .message (hRS _ _ h)

theorem Same.mono (hRS : ∀ i j, R i j → S i j) {v w : Value} (h : Same R v w) : Same S v w := by
  cases h with
  | element h => exact .element (h.mono hRS)
  | list h => exact .list (h.imp fun _ _ h ↦ h.mono hRS)
  | map h => exact .map (h.imp fun _ _ h ↦ ⟨h.1, h.2.mono hRS⟩)

theorem SameElement.eq {v w : Value} (h : SameElement Eq v w) : w = v := by
  cases h with
  | plain h => rfl
  | message h => rw [h]

theorem Same.eq {v w : Value} (h : Same Eq v w) : w = v := by
  cases h with
  | element h => exact h.eq
  | list h =>
    congr 1
    induction h with
    | nil => rfl
    | cons h _ ih => rw [h.eq, ih]
  | map h =>
    congr 1
    induction h with
    | nil => rfl
    | cons h _ ih => rw [ih, Prod.ext h.1.symm h.2.eq]

theorem eq_of_rel {o o' : Option Value} (h : Option.Rel (Same Eq) o o') : o' = o := by
  cases h with
  | some h => rw [h.eq]
  | none => rfl

theorem Same.eq_of_isPlain {v w : Value} (h : Same R v w) (hv : v.isPlain = true) : w = v := by
  cases h with
  | element h =>
    cases h with
    | plain _ => rfl
    | message _ => cases hv
  | list _ => cases hv
  | map _ => cases hv

end Value

theorem rel_none {α β : Type} {r : α → β → Prop} {o : Option α} (h : Option.Rel r o none) :
    o = none := by
  cases h
  rfl

theorem rel_mono {α β : Type} {r s : α → β → Prop} (h : ∀ a b, r a b → s a b) {a : Option α}
    {b : Option β} (hab : Option.Rel r a b) : Option.Rel s a b := by
  cases hab with
  | some hr => exact .some (h _ _ hr)
  | none => exact .none

/-! ## Instances in values

Only instances directly in a value matter at one level: the value itself, the elements of a list or
the values of a map. They nest less deeply than what they nest in. -/

namespace Value

/-- The instance that a single value is, if it is one. -/
def elementInstances : Value → List Instance
  | message i => [i]
  | _ => []

/-- The instances directly in a value: itself, the elements of a list or the values of a map. -/
def instances : Value → List Instance
  | list vs => vs.flatMap elementInstances
  | map es => es.flatMap fun e ↦ e.2.elementInstances
  | v => v.elementInstances

theorem depth_le_of_mem_elementInstances {v : Value} {i : Instance}
    (h : i ∈ v.elementInstances) : i.depth ≤ v.depth := by
  cases v with
  | message j => exact Nat.le_of_eq (by rw [List.mem_singleton.1 h, depth])
  | _ => cases h

theorem depth_le_of_mem_instances {v : Value} {i : Instance} (h : i ∈ v.instances) :
    i.depth ≤ v.depth := by
  cases v with
  | list vs =>
    obtain ⟨v, hv, h⟩ := List.mem_flatMap.1 h
    rw [depth]
    exact Nat.le_trans (depth_le_of_mem_elementInstances h) (depth_le_listDepth hv)
  | map es =>
    obtain ⟨e, he, h⟩ := List.mem_flatMap.1 h
    rw [depth]
    exact Nat.le_trans (depth_le_of_mem_elementInstances h) (depth_le_entriesDepth he).2
  | _ => exact depth_le_of_mem_elementInstances h

theorem SameElement.elementInstances {R : Instance → Instance → Prop} {v w : Value}
    (h : SameElement R v w) : List.Forall₂ R v.elementInstances w.elementInstances := by
  cases h with
  | plain h => cases v <;> first | exact .nil | cases h
  | message h => exact .cons h .nil

/-- Values that are the same hold related instances in the same places. -/
theorem Same.instances {R : Instance → Instance → Prop} {v w : Value} (h : Same R v w) :
    List.Forall₂ R v.instances w.instances := by
  cases h with
  | element h =>
    cases h with
    | plain h => cases v <;> first | exact .nil | cases h
    | message h => exact .cons h .nil
  | list h => exact List.rel_flatMap h fun _ _ h ↦ h.elementInstances
  | map h => exact List.rel_flatMap h fun _ _ h ↦ h.2.elementInstances

end Value

/-! ## Shapes

Shapes leave nested instances to a predicate, as equality leaves them to a relation. Admitting more
instances never makes a value unfit. -/

/-- The type of an element's target is registered, as a type of the right kind. -/
def Element.Resolved (reg : Registry) : Element → Prop
  | scalar _ => True
  | enum target _ => ∃ e, reg.enumMarshaller? target = some e
  | message target => ∃ m, reg.messageMarshaller? target = some m

/-- A value has the shape of an element: a scalar of the right kind, a number that a closed enum
declares, or an instance that `P` admits for the target. -/
def Element.Fits (reg : Registry) (P : TypeId → Instance → Prop) : Element → Value → Prop
  | scalar s, v => ∃ p, s.toPayload? v = some p
  | enum target isOpen, .enum n =>
    isOpen = false → ∀ e, reg.enumMarshaller? target = some e → e.isKnown n = true
  | message target, .message i => P target i
  | _, _ => False

/-- A value has the shape that a field declares. Only a field that tells unset from default may be
unset. -/
def Plan.Fits (reg : Registry) (P : TypeId → Instance → Prop) (p : Plan) (v : Value) : Prop :=
  match p.field.cardinality with
  | .required => p.element.Fits reg P v
  | .optional => (v = .absent ∧ p.field.presence = true) ∨ p.element.Fits reg P v
  | .repeated => ∃ vs, v = .list vs ∧ ∀ a ∈ vs, p.element.Fits reg P a
  | .map =>
    ∃ es, v = .map es ∧ ∀ e ∈ es,
      (∀ s, p.field.mapKey = some s → ∃ k, s.toPayload? e.1 = some k) ∧ p.element.Fits reg P e.2

/-- What every plan of a compiled type satisfies on its own. -/
structure Plan.WellFormed (p : Plan) : Prop where
  number : 1 ≤ p.field.number ∧ p.field.number ≤ maxFieldNumber
  packed : p.field.packed = true → p.element.wireType ≠ .lengthDelimited
  mapKey : p.field.cardinality = .map → ∃ k, p.field.mapKey = some k
  default : ∀ d, p.field.default = some d → ∃ v, p.element.defaultValue? d = some v
  oneof : ∀ g, p.field.oneof = some g → p.field.cardinality = .optional ∧ p.field.presence = true

/-- Two plans describe one field of the wire: whatever is written by one is read by the other. -/
structure Plan.Agrees (p q : Plan) : Prop where
  number : q.field.number = p.field.number
  cardinality : q.field.cardinality = p.field.cardinality
  presence : q.field.presence = p.field.presence
  element : q.element = p.element
  mapKey : q.field.mapKey = p.field.mapKey
  default : q.field.default = p.field.default
  packed : q.field.packed = p.field.packed
  oneof : q.field.oneof = p.field.oneof

theorem Plan.Agrees.refl (p : Plan) : p.Agrees p := ⟨rfl, rfl, rfl, rfl, rfl, rfl, rfl, rfl⟩

theorem Plan.Agrees.symm {p q : Plan} (h : p.Agrees q) : q.Agrees p :=
  ⟨h.number.symm, h.cardinality.symm, h.presence.symm, h.element.symm, h.mapKey.symm,
    h.default.symm, h.packed.symm, h.oneof.symm⟩

/-- The value that a declared default stands for. -/
def Plan.defaultValue? (p : Plan) : Option Value := p.field.default.bind p.element.defaultValue?

theorem Plan.WellFormed.default_eq_none {p : Plan} (h : p.WellFormed)
    (hd : p.defaultValue? = none) : p.field.default = none := by
  cases hf : p.field.default with
  | none => rfl
  | some d =>
    obtain ⟨v, hv⟩ := h.default d hf
    rw [Plan.defaultValue?, hf, Option.bind_some, hv] at hd
    cases hd

theorem Plan.WellFormed.oneof_eq_none {p : Plan} (h : p.WellFormed)
    (hc : p.field.cardinality ≠ .optional) : p.field.oneof = none := by
  by_contra hne
  obtain ⟨g, hg⟩ := Option.ne_none_iff_exists'.1 hne
  exact hc (h.oneof g hg).1

/-- What a reader hands over for a field that was written with a value. -/
def Plan.handed (p : Plan) (v : Value) : Option Value :=
  if v.isAbsent || (MessageMarshaller.isImplicit p && isDefault v p.field.default)
  then p.defaultValue? else some v

section

variable {reg : Registry} {P Q : TypeId → Instance → Prop}

theorem Element.Fits.mono {e : Element} {v : Value}
    (hPQ : ∀ t i, e = .message t → i ∈ v.elementInstances → P t i → Q t i) (h : e.Fits reg P v) :
    e.Fits reg Q v := by
  cases e with
  | scalar s => exact h
  | enum target isOpen => cases v <;> exact h
  | message target =>
    cases v with
    | message i => exact hPQ target i rfl List.mem_cons_self h
    | _ => exact h

theorem Element.Fits.instances_eq {e : Element} {v : Value} (h : e.Fits reg P v) :
    v.instances = v.elementInstances := by
  cases v with
  | list vs | map es =>
    cases e with
    | scalar s =>
      obtain ⟨p, hp⟩ := h
      cases s <;> cases hp
    | enum target isOpen | message target => cases h
  | _ => rfl

theorem Element.Fits.isAbsent {e : Element} {v : Value} (h : e.Fits reg P v) :
    v.isAbsent = false := by
  cases v with
  | absent =>
    cases e with
    | scalar s =>
      obtain ⟨p, hp⟩ := h
      cases s <;> cases hp
    | enum target isOpen => cases h
    | message target => cases h
  | _ => rfl

theorem Element.Fits.of_mem_instances {e : Element} {v : Value} {t : TypeId} {i : Instance}
    (h : e.Fits reg P v) (ht : e = .message t) (hi : i ∈ v.elementInstances) : P t i := by
  subst ht
  cases v with
  | message j =>
    rw [List.mem_singleton.1 hi]
    exact h
  | _ => cases hi

/-- A value that fits still fits when more instances are admitted. Only instances of the field's own
target directly in the value matter. -/
theorem Plan.Fits.mono {p : Plan} {v : Value}
    (hPQ : ∀ t i, p.element = .message t → i ∈ v.instances → P t i → Q t i)
    (h : p.Fits reg P v) : p.Fits reg Q v := by
  unfold Plan.Fits at h ⊢
  split
  · next hc =>
    rw [hc] at h
    exact h.mono (h.instances_eq ▸ hPQ)
  · next hc =>
    rw [hc] at h
    exact h.imp_right fun h ↦ h.mono (h.instances_eq ▸ hPQ)
  · next hc =>
    rw [hc] at h
    obtain ⟨vs, rfl, h⟩ := h
    refine ⟨vs, rfl, fun a ha ↦ (h a ha).mono fun t i he hi ↦ hPQ t i he ?_⟩
    exact List.mem_flatMap.2 ⟨a, ha, hi⟩
  · next hc =>
    rw [hc] at h
    obtain ⟨es, rfl, h⟩ := h
    refine ⟨es, rfl, fun e he ↦
      ⟨(h e he).1, (h e he).2.mono fun t i ht hi ↦ hPQ t i ht ?_⟩⟩
    exact List.mem_flatMap.2 ⟨e, he, hi⟩

theorem Plan.Fits.of_mem_instances {p : Plan} {v : Value} {t : TypeId} {i : Instance}
    (h : p.Fits reg P v) (ht : p.element = .message t) (hi : i ∈ v.instances) : P t i := by
  unfold Plan.Fits at h
  split at h
  · exact h.of_mem_instances ht (h.instances_eq ▸ hi)
  · rcases h with ⟨rfl, -⟩ | h
    · cases hi
    · exact h.of_mem_instances ht (h.instances_eq ▸ hi)
  · obtain ⟨vs, rfl, h⟩ := h
    obtain ⟨a, ha, hi⟩ := List.mem_flatMap.1 hi
    exact (h a ha).of_mem_instances ht hi
  · obtain ⟨es, rfl, h⟩ := h
    obtain ⟨e, he, hi⟩ := List.mem_flatMap.1 hi
    exact (h e he).2.of_mem_instances ht hi

end

end ProtoSchema
