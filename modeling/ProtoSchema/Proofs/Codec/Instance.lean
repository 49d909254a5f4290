import ProtoSchema.Proofs.Codec.Message

/-!
# Well-typed instances and what comes back of them

An instance is well typed for a message type when every getter yields a value of the shape that its
field declares, at most one member of each oneof is set, the retained bytes are complete records of
numbers that the type does not declare, and the factories store what they are handed. Nested
instances are well typed one level further down, so `Registry.WellTyped` recurses over the levels
that may still open, not over the instance.

`Registry.SameAt` compares an instance with what was read back of it, member by member. The two ways
in which a member may differ are cases of `Plan.Returned`: an unset member with a declared default
comes back as that default, and a float may come back as a default that is numerically equal to it.
Only the unknown fields of the message itself are compared. Those of a flattened supertype never
cross the wire.
-/

set_option autoImplicit false

namespace ProtoSchema

open Wire

/-! ## Well-typed instances

What is asked of an instance is asked level by level. At one level the nested instances are left to
a predicate, which is then what is asked at the level below. -/

/-- What is asked of an instance at one level, where `P` says which instances may nest in it. -/
structure MessageMarshaller.Admits (m : MessageMarshaller) (reg : Registry)
    (P : TypeId → Instance → Prop) (x : Instance) : Prop where
  type : x.type = m.type
  fits : ∀ p ∈ m.plans, ∃ v, m.layout.get? x p.path = some v ∧ p.Fits reg P v
  exclusive : ∀ p ∈ m.plans, ∀ q ∈ m.plans, ∀ g v w, p.field.oneof = some g →
    q.field.oneof = some g → m.layout.get? x p.path = some v → m.layout.get? x q.path = some w →
      v.isAbsent = false → w.isAbsent = false → p.field.number = q.field.number
  retained : ∃ rs, Records (m.retained x).bytes rs ∧
    ∀ r ∈ rs, ∀ p ∈ m.plans, p.field.number ≠ r.number

/-- The factories of the type store what they may be handed when the instance is read back: for
every field the value that a reader hands over, up to the identity of nested instances. -/
def MessageMarshaller.StoresBack (m : MessageMarshaller) (x : Instance) : Prop :=
  ∀ hand : List Nat → Option Value,
    (∀ p ∈ m.plans, ∀ v, m.layout.get? x p.path = some v →
      Option.Rel (Value.Same fun i j ↦ j.type = i.type) (p.handed v) (hand p.path)) →
    m.Stores hand (m.retained x)

/-- An instance is well typed, with at most `levels` levels of messages nested in it. -/
def Registry.WellTyped (reg : Registry) :
    (levels : Nat) → MessageMarshaller → Instance → Prop
  | 0, m, x => m.Admits reg (fun _ _ ↦ False) x ∧ m.StoresBack x
  | levels + 1, m, x =>
    m.Admits reg (fun target i ↦ ∀ inner, reg.messageMarshaller? target = some inner →
      reg.WellTyped levels inner i) x ∧ m.StoresBack x

/-! ## What comes back

Instances are compared in the same way: at one level by their members, with a relation for what
nests in them. -/

/-- What a member that held `v` may hold after it was written and read back. -/
inductive Plan.Returned (R : Instance → Instance → Prop) (p : Plan) : Value → Value → Prop
  | same {v w : Value} (h : Value.Same R v w)
      (hd : v.isAbsent = true → p.field.default = none) : Returned R p v w
  /-- An unset member that tells unset from default comes back as its declared default. -/
  | default {w : Value} (hp : p.field.presence = true) (hd : p.defaultValue? = some w) :
      Returned R p .absent w
  /-- A member that does not may come back as a default that is the same number. -/
  | single {x : Binary32} {d : Binary64} (hp : p.field.presence = false)
      (hd : p.field.default = some (.float d)) (he : x.numericallyEqual d.toBinary32 = true) :
      Returned R p (.f32 x) (.f32 d.toBinary32)
  | double {x d : Binary64} (hp : p.field.presence = false)
      (hd : p.field.default = some (.float d)) (he : x.numericallyEqual d = true) :
      Returned R p (.f64 x) (.f64 d)

/-- `y` is what may come back of `x` at one level, where `R` relates nested instances. -/
structure MessageMarshaller.Returns (m : MessageMarshaller) (R : Instance → Instance → Prop)
    (x y : Instance) : Prop where
  type : y.type = m.type
  retained : m.retained y = m.retained x
  members : ∀ p ∈ m.plans, ∃ v w, m.layout.get? x p.path = some v ∧
    m.layout.get? y p.path = some w ∧ p.Returned R v w

/-- `y` is what may come back of `x`, through all levels of nested messages. -/
def Registry.SameAt (reg : Registry) :
    (levels : Nat) → MessageMarshaller → Instance → Instance → Prop
  | 0, m, x, y => m.Returns (fun _ _ ↦ False) x y
  | levels + 1, m, x, y =>
    m.Returns (fun i j ↦ ∃ inner, reg.messageMarshaller? i.type = some inner ∧
      reg.SameAt levels inner i j) x y

theorem Registry.WellTyped.type {reg : Registry} {levels : Nat} {m : MessageMarshaller}
    {x : Instance} (h : reg.WellTyped levels m x) : x.type = m.type := by
  cases levels with
  | zero => exact h.1.type
  | succ levels => exact h.1.type

theorem Registry.WellTyped.storesBack {reg : Registry} {levels : Nat} {m : MessageMarshaller}
    {x : Instance} (h : reg.WellTyped levels m x) : m.StoresBack x := by
  cases levels with
  | zero => exact h.2
  | succ levels => exact h.2

theorem Registry.SameAt.type {reg : Registry} {levels : Nat} {m : MessageMarshaller}
    {x y : Instance} (h : reg.SameAt levels m x y) : y.type = m.type := by
  cases levels with
  | zero => exact MessageMarshaller.Returns.type h
  | succ levels => exact MessageMarshaller.Returns.type h

/-! ## From slots to members

What a getter shows after decoding was put into a slot, and what was put there came from a record or
from a default. A member that held a value therefore has a few ways to come back, which are told
apart by whether the value was left out and whether its field tells unset from default. -/

section

variable {reg : Registry} {P : TypeId → Instance → Prop} {R : Instance → Instance → Prop} {p : Plan}

theorem Plan.Fits.optional_of_absent {v : Value} (h : p.Fits reg P v) (hv : v.isAbsent = true) :
    v = .absent ∧ p.field.cardinality = .optional ∧ p.field.presence = true := by
  unfold Plan.Fits at h
  split at h
  · rw [h.isAbsent] at hv
    cases hv
  · next hc =>
    rcases h with h | h
    · exact ⟨h.1, hc, h.2⟩
    · rw [h.isAbsent] at hv
      cases hv
  · obtain ⟨vs, rfl, -⟩ := h
    cases hv
  · obtain ⟨es, rfl, -⟩ := h
    cases hv

theorem Plan.Returned.of_eq {v w : Value} (hv : v.isPlain = true) (h : w = v)
    (hd : v.isAbsent = true → p.field.default = none) : p.Returned R v w := by
  rw [h]
  exact .same (.element (.plain hv)) hd

theorem Element.returned_of_isDefault {v w : Value} {d : DefaultValue}
    (hfit : p.element.Fits reg P v) (hp : p.field.presence = false)
    (hd : p.field.default = some d) (hw : p.element.defaultValue? d = some w)
    (h : isDefault v (some d) = true) : p.Returned R v w := by
  cases he : p.element with
  | scalar s =>
    rw [he] at hfit hw
    obtain ⟨payload, hpay⟩ := hfit
    cases s <;> cases v <;> cases hpay <;> cases d <;> cases hw
    case float.f32.refl.float.refl x b => exact .single hp hd h
    case double.f64.refl.float.refl x b => exact .double hp hd h
    all_goals
      obtain rfl := eq_of_beq h
      exact .of_eq rfl (by simp) fun h ↦ by cases h
  | enum target isOpen =>
    rw [he] at hfit hw
    cases v <;> cases d <;> cases hw
    case enum.enum.refl n name number =>
      obtain rfl := eq_of_beq h
      exact .of_eq rfl rfl fun h ↦ by cases h
    all_goals cases hfit
  | message target =>
    rw [he] at hw
    cases d <;> cases hw

theorem Plan.isImplicit_eq_true : MessageMarshaller.isImplicit p = true ↔
    p.field.presence = false ∧ p.field.cardinality = .optional := by
  simp [MessageMarshaller.isImplicit]

theorem Plan.Fits.element {v : Value} (hfit : p.Fits reg P v) (habs : v.isAbsent = false)
    (hc : p.field.cardinality = .optional) : p.element.Fits reg P v := by
  unfold Plan.Fits at hfit
  rw [hc] at hfit
  refine hfit.resolve_left fun h ↦ ?_
  rw [h.1] at habs
  cases habs

/-- The ways of a member that held `v`: what is put into its slot, and what a getter shows of it. -/
inductive Plan.Shown (reg : Registry) (P : TypeId → Instance → Prop)
    (R : Instance → Instance → Prop) (p : Plan) (v : Value) : Option Value → Value → Prop
  /-- An unset member without a declared default stays unset. -/
  | unset (hv : v = .absent) (hp : p.field.presence = true) (hd : p.defaultValue? = none) :
    Shown reg P R p v none .absent
  /-- An unset member becomes its declared default. -/
  | default {w : Value} (hv : v = .absent) (hp : p.field.presence = true)
      (hc : p.field.cardinality = .optional) (hd : p.defaultValue? = some w) :
    Shown reg P R p v (some w) w
  /-- A zero is left out where zero is the default. -/
  | zero {s : Scalar} (hi : MessageMarshaller.isImplicit p = true)
      (hd : p.field.default = none) (hs : p.element = .scalar s) (hfit : p.element.Fits reg P v)
      (h : isDefault v none = true) : Shown reg P R p v none s.zero
  /-- A value that counts as the declared default is left out and becomes that default. -/
  | declared {d : DefaultValue} {w : Value} (hi : MessageMarshaller.isImplicit p = true)
      (hd : p.field.default = some d) (hw : p.element.defaultValue? d = some w)
      (hfit : p.element.Fits reg P v) (h : isDefault v (some d) = true) :
    Shown reg P R p v (some w) w
  /-- Any other value is written and read back. -/
  | kept {w : Value} (hv : v.isAbsent = false)
      (hd : ¬(MessageMarshaller.isImplicit p && isDefault v p.field.default) = true)
      (h : Value.Same R v w) : Shown reg P R p v (some w) w

/-- A getter shows what stands in the slot that was filled for a member, in one of these ways. -/
theorem Plan.shown_of_shows {v w : Value} {o : Option Value} (hp : p.WellFormed)
    (hfit : p.Fits reg P v) (ho : Option.Rel (Value.Same R) (p.handed v) o) (hw : p.Shows o w) :
    p.Shown reg P R v o w := by
  by_cases habs : v.isAbsent = true
  · obtain ⟨rfl, hc, hpres⟩ := hfit.optional_of_absent habs
    rw [Plan.handed, habs, Bool.true_or, if_pos rfl] at ho
    cases hd : p.defaultValue? with
    | none =>
      rw [hd] at ho
      cases ho
      rw [Plan.Shows, if_pos hpres] at hw
      rw [hw]
      exact .unset rfl hpres hd
    | some d =>
      rw [hd] at ho
      cases ho with
      | some h =>
        obtain rfl := h.eq_of_isPlain (p.isPlain_defaultValue? hd)
        rw [hw]
        exact .default rfl hpres hc hd
  · rw [Bool.not_eq_true] at habs
    by_cases hdef : (MessageMarshaller.isImplicit p && isDefault v p.field.default) = true
    · rw [Plan.handed, habs, Bool.false_or, if_pos hdef] at ho
      obtain ⟨himp, hdef⟩ := Bool.and_eq_true_iff.1 hdef
      obtain ⟨hpres, hc⟩ := Plan.isImplicit_eq_true.1 himp
      cases hd : p.field.default with
      | none =>
        rw [Plan.defaultValue?, hd, Option.bind_none] at ho
        cases ho
        rw [Plan.Shows, hpres, if_neg Bool.false_ne_true] at hw
        obtain ⟨s, hs, rfl⟩ := hw
        exact .zero himp hd hs (hfit.element habs hc) (hd ▸ hdef)
      | some d =>
        obtain ⟨dv, hdv⟩ := hp.default d hd
        have hvalue : p.defaultValue? = some dv := by
          rw [Plan.defaultValue?, hd, Option.bind_some, hdv]
        rw [hvalue] at ho
        cases ho with
        | some h =>
          obtain rfl := h.eq_of_isPlain (p.isPlain_defaultValue? hvalue)
          rw [hw]
          exact .declared himp hd hdv (hfit.element habs hc) (hd ▸ hdef)
    · rw [Plan.handed, habs, Bool.false_or, if_neg hdef] at ho
      cases ho with
      | some h =>
        rw [hw]
        exact .kept habs hdef h

/-- What a getter shows of the slot that was filled for a member is what may come back of it. -/
theorem Plan.returned_of_shows {v w : Value} {o : Option Value} (hp : p.WellFormed)
    (hfit : p.Fits reg P v) (ho : Option.Rel (Value.Same R) (p.handed v) o) (hw : p.Shows o w) :
    p.Returned R v w := by
  cases Plan.shown_of_shows hp hfit ho hw with
  | unset hv _ hd => exact .of_eq (hv ▸ rfl) hv.symm fun _ ↦ hp.default_eq_none hd
  | default hv hpres _ hd =>
    rw [hv]
    exact .default hpres hd
  | @zero s _ hd hs hfit hdef =>
    rw [hs] at hfit
    obtain ⟨payload, hpay⟩ := hfit
    have hz : v.isZero = true := by
      cases v <;> first | exact hdef | cases hdef
    rw [← Scalar.eq_zero_of_isZero hpay hz]
    refine .of_eq ?_ rfl fun _ ↦ hd
    cases s <;> cases v <;> first | rfl | cases hpay
  | declared himp hd hdv hfit hdef =>
    exact Element.returned_of_isDefault hfit (Plan.isImplicit_eq_true.1 himp).1 hd hdv hdef
  | kept habs _ h => exact .same h fun h ↦ absurd h (by rw [habs]; exact Bool.false_ne_true)

end

end ProtoSchema
