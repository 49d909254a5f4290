import ProtoSchema.Proofs.Codec.Shape
import ProtoSchema.Proofs.Codec.Storing

/-!
# Fields that are left out

A field that cannot tell being unset from holding its default is left out when it holds its default,
and a reader supplies the default in its place. Two functions have to agree for this to lose
nothing: the test by which the writer leaves a value out, and what the reader makes of the declared
default, or of the zero of a native type where none is declared.

They agree on all values but one kind. Without a declared default the writer compares the bits of a
floating value with those of zero. With one it compares numbers, for which the two zeros are equal,
so a zero is left out for a declared zero of the other sign.
-/

set_option autoImplicit false

namespace ProtoSchema

open Wire

/-! ## Zeros of either sign

Of all words of a format only two are the same number without being the same word. -/

namespace Floating.Format

/-- The bits of a zero, of either sign. -/
def IsZero (f : Format) (bits : Nat) : Prop := bits % f.signBit = 0

/-- Words that are the same number are the same word, or zeros of either sign. -/
theorem eq_or_isZero_of_numericallyEqual {f : Format} {a b : Nat}
    (h : f.numericallyEqual a b = true) : a = b ∨ f.IsZero a ∧ f.IsZero b := by
  unfold numericallyEqual at h
  split at h
  · cases h
  · cases h
  · rw [Bool.or_eq_true, Bool.and_eq_true, beq_iff_eq, beq_iff_eq, beq_iff_eq] at h
    exact h

end Floating.Format

open Floating (Format)

/-- Two floating values of one format that are zeros of different signs. -/
inductive Value.OppositeZeros : Value → Value → Prop
  | f32 {x y : Binary32} (hx : Format.single.IsZero x.bits.toNat)
      (hy : Format.single.IsZero y.bits.toNat) (hne : y ≠ x) : OppositeZeros (.f32 x) (.f32 y)
  | f64 {x y : Binary64} (hx : Format.double.IsZero x.bits.toNat)
      (hy : Format.double.IsZero y.bits.toNat) (hne : y ≠ x) : OppositeZeros (.f64 x) (.f64 y)

theorem Value.OppositeZeros.ne {v w : Value} (h : v.OppositeZeros w) : w ≠ v := by
  rintro rfl
  cases h with
  | f32 _ _ hne | f64 _ _ hne => exact hne rfl

theorem Binary32.eq_or_oppositeZeros {x y : Binary32} (h : x.numericallyEqual y = true) :
    Value.f32 y = .f32 x ∨ (Value.f32 x).OppositeZeros (.f32 y) := by
  by_cases heq : y = x
  · exact .inl (congrArg Value.f32 heq)
  · rcases Format.eq_or_isZero_of_numericallyEqual h with hbits | ⟨hx, hy⟩
    · exact absurd (congrArg Binary32.mk (UInt32.toNat_inj.1 hbits)).symm heq
    · exact .inr (.f32 hx hy heq)

theorem Binary64.eq_or_oppositeZeros {x y : Binary64} (h : x.numericallyEqual y = true) :
    Value.f64 y = .f64 x ∨ (Value.f64 x).OppositeZeros (.f64 y) := by
  by_cases heq : y = x
  · exact .inl (congrArg Value.f64 heq)
  · rcases Format.eq_or_isZero_of_numericallyEqual h with hbits | ⟨hx, hy⟩
    · exact absurd (congrArg Binary64.mk (UInt64.toNat_inj.1 hbits)).symm heq
    · exact .inr (.f64 hx hy heq)

/-! ## What counts as the default

The test of the writer asks two things: whether the value is what the declared default stands for,
or, without one, whether it is zero. A record is never empty, so nothing is written only where the
test says so. -/

/-- A value that counts as the declared default is what the default stands for, or a zero of the
other sign. -/
theorem Element.eq_or_oppositeZeros {e : Element} {v w : Value} {d : DefaultValue}
    (hv : e.Holds v) (hw : e.defaultValue? d = some w) (h : isDefault v (some d) = true) :
    w = v ∨ v.OppositeZeros w := by
  cases e with
  | scalar s =>
    cases s <;> cases v <;> cases hv <;> cases d <;> cases hw
    case float.f32.refl.float.refl x b => exact Binary32.eq_or_oppositeZeros h
    case double.f64.refl.float.refl x b => exact Binary64.eq_or_oppositeZeros h
    all_goals
      obtain rfl := eq_of_beq h
      simp
  | enum target isOpen =>
    obtain ⟨n, rfl⟩ := hv
    cases d <;> cases hw
    obtain rfl := eq_of_beq h
    exact .inl rfl
  | message target => cases d <;> cases hw

theorem Element.zero_of_isDefault {e : Element} {v : Value} (hv : e.Holds v)
    (h : isDefault v none = true) : ∃ s, e = .scalar s ∧ v = s.zero := by
  cases e with
  | scalar s =>
    have hzero : v.isZero = true := by
      cases v <;> first | exact h | cases h
    exact ⟨s, rfl, Scalar.eq_zero_of_kind hv hzero⟩
  | enum target isOpen =>
    obtain ⟨n, rfl⟩ := hv
    cases h
  | message target =>
    obtain ⟨i, rfl, -⟩ := hv
    cases h

namespace MessageMarshaller

variable {m : MessageMarshaller} {reg : Registry} {write : NestedWriter} {p : Plan} {v : Value}

theorem writeTagged_ne_nil {number : Nat} :
    m.writeTagged reg write p number v ≠ .ok [] := by
  intro h
  obtain ⟨b, -, hb⟩ := map_eq_ok.1 h
  exact Tag.encode_ne_nil _ (List.append_eq_nil_iff.1 hb).1

/-- Nothing is written for a value exactly if it counts as the default. -/
theorem writeField_eq_nil_iff (himplicit : isImplicit p = true) (hv : p.element.Holds v) :
    m.writeField reg write p v = .ok [] ↔ isDefault v p.field.default = true := by
  have hc := (Plan.isImplicit_eq_true.1 himplicit).2
  simp only [writeField, hc, hv.isSingle.1, Bool.false_eq_true, if_false, himplicit, Bool.true_and]
  constructor
  · intro h
    split at h
    · assumption
    · exact absurd h writeTagged_ne_nil
  · exact fun h ↦ if_pos h

end MessageMarshaller

/-! ## What a native type takes from the slot

A slot is taken by a native type whose values have the shape of the field. An empty slot is taken as
what the type has for a missing value, which is zero for scalars. -/

/-- All values of the native type have the shape of the element. -/
def Element.HeldBy (e : Element) (t : NativeType) : Prop := ∀ a, e.Holds (t.toValue a)

namespace NativeType

variable {t : NativeType} {e : Element} {v w : Value}

/-- Taking a member at the type from a slot gives a native value that crosses the wire as `w`. -/
def TakesAs (t : NativeType) (slot : Option Value) (w : Value) : Prop :=
  ∀ (values : FieldValues) (k : Nat), values.slots[k]? = some slot →
    ∃ a rest, FieldValues.take t k values = .ok (a, rest) ∧ t.toValue a = w

/-- A native value that crosses the wire as a single element comes back as itself, or as one that
crosses the wire alike. -/
theorem exists_fromValue_toValue (a : t.Carrier) (h : e.Holds (t.toValue a)) :
    ∃ b, t.fromValue (t.toValue a) = .ok b ∧ t.toValue b = t.toValue a := by
  induction t with
  | plain k => exact ⟨a, k.fromValue_toValue a, rfl⟩
  | f32 | f64 => exact ⟨a, rfl, rfl⟩
  | closedEnum native =>
    obtain ⟨b, hb⟩ := native.exists_ofNumber? a
    refine ⟨b, ?_, congrArg Value.enum (NativeEnum.number_of_ofNumber? hb)⟩
    rw [toValue, fromValue]
    simp only [hb]
  | openEnum native =>
    cases a with
    | inl a =>
      obtain ⟨b, hb⟩ := native.exists_ofNumber? a
      refine ⟨.inl b, ?_, congrArg Value.enum (NativeEnum.number_of_ofNumber? hb)⟩
      rw [toValue, fromValue]
      simp only [hb]
    | inr n =>
      rw [toValue, fromValue]
      cases hb : native.ofNumber? n with
      | some b => exact ⟨.inl b, rfl, congrArg Value.enum (NativeEnum.number_of_ofNumber? hb)⟩
      | none => exact ⟨.inr n, rfl, rfl⟩
  | message type =>
    obtain ⟨i, hi⟩ := a
    exact ⟨⟨i, hi⟩, dif_pos hi, rfl⟩
  | optional t ih =>
    cases a with
    | none => cases h.isSingle.1
    | some a =>
      obtain ⟨b, hb, hvalue⟩ := ih a h
      exact ⟨some b, map_eq_ok.2 ⟨b, hb, rfl⟩, hvalue⟩
  | boxed t ih => exact ih a h
  | list t => exact absurd rfl (h.isSingle.2.1 _)
  | sortedMap k t | hashedMap k t => exact absurd rfl (h.isSingle.2.2 _)

theorem exists_toValue_of_oppositeZeros (a : t.Carrier) (h : e.Holds (t.toValue a))
    (hw : (t.toValue a).OppositeZeros w) : ∃ b, t.toValue b = w := by
  generalize hv : t.toValue a = v at hw
  induction t with
  | plain k =>
    induction k with
    | boxed k ih => exact ih a h hv
    | _ => cases hw <;> cases hv
  | f32 =>
    cases hw with
    | @f32 _ y => exact ⟨y, rfl⟩
    | f64 => cases hv
  | f64 =>
    cases hw with
    | @f64 _ y => exact ⟨y, rfl⟩
    | f32 => cases hv
  | closedEnum => cases hw <;> cases hv
  | openEnum => cases hw <;> cases a <;> cases hv
  | message => cases hw <;> cases hv
  | optional t ih =>
    cases a with
    | none => cases h.isSingle.1
    | some a =>
      obtain ⟨b, hb⟩ := ih a h hv
      exact ⟨some b, hb⟩
  | boxed t ih => exact ih a h hv
  | list | sortedMap | hashedMap => cases hw <;> cases hv

/-- The missing value of a native type whose values are scalars is their zero. -/
theorem exists_missing_of_heldBy {s : Scalar} (ht : (Element.scalar s).HeldBy t) (a : t.Carrier) :
    ∃ z, t.missing? = some z ∧ t.toValue z = s.zero := by
  induction t with
  | plain k =>
    refine ⟨k.zero, rfl, ?_⟩
    have := ht a
    induction k with
    | boxed k ih => exact ih ht a this
    | _ => cases s <;> first | rfl | cases this
  | f32 | f64 =>
    refine ⟨_, rfl, ?_⟩
    have := ht a
    cases s <;> first | rfl | cases this
  | boxed t ih => exact ih ht a
  | optional t => cases ht none
  | closedEnum => cases ht a
  | openEnum =>
    have := ht a
    cases a <;> cases this
  | message | list | sortedMap | hashedMap => cases ht a

theorem takesAs_some (a : t.Carrier) (h : e.Holds (t.toValue a)) :
    t.TakesAs (some (t.toValue a)) (t.toValue a) := by
  intro values k hslot
  obtain ⟨b, hb, hvalue⟩ := exists_fromValue_toValue a h
  refine ⟨b, { values with slots := values.slots.set k none }, ?_, hvalue⟩
  rw [FieldValues.take, FieldValues.bind_takeValue hslot]
  simp only [hb, FieldValues.explain]

theorem takesAs_none {s : Scalar} (ht : (Element.scalar s).HeldBy t) (a : t.Carrier) :
    t.TakesAs none s.zero := by
  intro values k hslot
  obtain ⟨z, hz, hvalue⟩ := exists_missing_of_heldBy ht a
  refine ⟨z, { values with slots := values.slots.set k none }, ?_, hvalue⟩
  rw [FieldValues.take, FieldValues.bind_takeValue hslot]
  simp only [hz, FieldValues.orMissing]

end NativeType

/-! ## The law -/

/-- The value is a floating zero, and the field declares the zero of the other sign as its
default. -/
def Plan.FlipsZero (p : Plan) (v : Value) : Prop :=
  ∃ w, p.defaultValue? = some w ∧ v.OppositeZeros w

/-- **Leaving a field out loses nothing but the sign of a zero.** Let a compiled message type have a
field that is left out when it holds its default, and let nothing be written for a value of the
field's shape. What a reader fills the slot with, and what a native type of that shape takes from
the slot, is the same value bit for bit, exactly unless the value is a floating zero and the field
declares the zero of the other sign. -/
theorem omission_lossless_iff {m : MessageMarshaller} (hm : m.Compiled) {p : Plan}
    (hp : p ∈ m.plans) (himplicit : MessageMarshaller.isImplicit p = true) {v : Value}
    (hv : p.element.Holds v) {reg : Registry} {write : NestedWriter}
    (hwrite : m.writeField reg write p v = .ok []) :
    ∃ slot w, m.fill p none = .ok slot ∧ p.Shows slot w ∧
      (∀ t : NativeType, p.element.HeldBy t → (∃ a, t.toValue a = v) → t.TakesAs slot w) ∧
      (w = v ↔ ¬p.FlipsZero v) := by
  obtain ⟨hpresence, hc⟩ := Plan.isImplicit_eq_true.1 himplicit
  have hdefault := (MessageMarshaller.writeField_eq_nil_iff himplicit hv).1 hwrite
  cases hd : p.field.default with
  | none =>
    rw [hd] at hdefault
    obtain ⟨s, hs, rfl⟩ := Element.zero_of_isDefault hv hdefault
    have hnone : p.defaultValue? = none := by rw [Plan.defaultValue?, hd, Option.bind_none]
    refine ⟨none, s.zero, by rw [fill_none m hc, hnone], ?_, ?_, ?_⟩
    · rw [Plan.Shows, hpresence, if_neg Bool.false_ne_true]
      exact ⟨s, hs, rfl⟩
    · rintro t ht ⟨a, -⟩
      rw [hs] at ht
      exact NativeType.takesAs_none ht a
    · refine iff_of_true rfl ?_
      rintro ⟨w, hw, -⟩
      rw [hnone] at hw
      cases hw
  | some d =>
    rw [hd] at hdefault
    obtain ⟨w, hw⟩ := (hm.wellFormed.plans p hp).default d hd
    have hsome : p.defaultValue? = some w := by rw [Plan.defaultValue?, hd, Option.bind_some, hw]
    have hflips : p.FlipsZero v ↔ v.OppositeZeros w := by simp [Plan.FlipsZero, hsome]
    have hsame := Element.eq_or_oppositeZeros hv hw hdefault
    refine ⟨some w, w, by rw [fill_none m hc, hsome], rfl, ?_, ?_⟩
    · rintro t ht ⟨a, rfl⟩
      obtain ⟨b, rfl⟩ : ∃ b, t.toValue b = w :=
        hsame.elim (fun h ↦ ⟨a, h.symm⟩) (NativeType.exists_toValue_of_oppositeZeros a hv)
      exact NativeType.takesAs_some b (ht b)
    · rw [hflips]
      exact ⟨fun h h' ↦ h'.ne h, fun h ↦ hsame.resolve_right h⟩

namespace Scale

def type : TypeId := ⟨"scale::Scale"⟩

/-- A message with a weight that is left out where it is the declared zero. -/
def environment : Environment :=
  [.storing type
    [({ name := "weight", kind := .field (.scalar .double), getter := ·, number := some 1
        default := some (.float ⟨0⟩) })]]

def registry : Registry :=
  CompilationUnit.registry { fileName := "scale.proto", requested := [.of type] } environment

def weightPlan : Plan where
  field :=
    ⟨1, "weight", .fixed64, .optional, .scalar .double, none, some (.float ⟨0⟩), false, false, none,
      none⟩
  element := .scalar .double
  path := [0]

theorem exists_marshaller : ∃ m, registry.messageMarshaller? type = some m ∧ m.Compiled ∧
    m.plans = [weightPlan] := by
  have hall : (registry.messageMarshaller? type).map (·.plans) = some [weightPlan] := by
    decide +kernel
  obtain ⟨m, hm, hplans⟩ := Option.map_eq_some_iff.1 hall
  exact ⟨m, hm, (CompilationUnit.compiled_registry _ _).marshaller hm, hplans⟩

theorem writeField_weight {m : MessageMarshaller} {x : Binary64}
    (h : x.numericallyEqual ⟨0⟩ = true) :
    m.writeField registry registry.write weightPlan (.f64 x) = .ok [] :=
  (MessageMarshaller.writeField_eq_nil_iff (p := weightPlan) rfl
    (show weightPlan.element.Holds (.f64 x) from rfl)).2 h

/-- The zero with its sign bit set. -/
def negativeZero : Binary64 := ⟨0x8000000000000000⟩

end Scale

/-- A weight of zero is left out, and comes back as it was. -/
theorem Scale.omission_lossless_zero : ∃ m, registry.messageMarshaller? type = some m ∧
    m.Compiled ∧ weightPlan ∈ m.plans ∧ MessageMarshaller.isImplicit weightPlan = true ∧
    weightPlan.element.Holds (.f64 ⟨0⟩) ∧
    m.writeField registry registry.write weightPlan (.f64 ⟨0⟩) = .ok [] ∧
    ∃ slot w, m.fill weightPlan none = .ok slot ∧ weightPlan.Shows slot w ∧
      (∀ t : NativeType, weightPlan.element.HeldBy t → (∃ a, t.toValue a = .f64 ⟨0⟩) →
        t.TakesAs slot w) ∧
      (w = .f64 ⟨0⟩ ↔ ¬weightPlan.FlipsZero (.f64 ⟨0⟩)) := by
  obtain ⟨m, hm, hcompiled, hplans⟩ := exists_marshaller
  have hp : weightPlan ∈ m.plans := hplans ▸ List.mem_singleton_self _
  have hwrite : m.writeField registry registry.write weightPlan (.f64 ⟨0⟩) = .ok [] :=
    writeField_weight (by decide +kernel)
  exact ⟨m, hm, hcompiled, hp, rfl, rfl, hwrite, omission_lossless_iff hcompiled hp rfl rfl hwrite⟩

/-- A weight of negative zero is left out as well, and comes back as the declared zero. -/
theorem Scale.not_lossless : ∃ m, registry.messageMarshaller? type = some m ∧ m.Compiled ∧
    weightPlan ∈ m.plans ∧ MessageMarshaller.isImplicit weightPlan = true ∧
    weightPlan.element.Holds (.f64 negativeZero) ∧
    m.writeField registry registry.write weightPlan (.f64 negativeZero) = .ok [] ∧
    (∀ slot w, m.fill weightPlan none = .ok slot → weightPlan.Shows slot w →
      w = .f64 ⟨0⟩ ∧ w ≠ .f64 negativeZero) := by
  obtain ⟨m, hm, hcompiled, hplans⟩ := exists_marshaller
  have hp : weightPlan ∈ m.plans := hplans ▸ List.mem_singleton_self _
  refine ⟨m, hm, hcompiled, hp, rfl, rfl, writeField_weight (by decide +kernel),
    fun slot w hslot hw ↦ ?_⟩
  cases hslot
  obtain rfl : w = .f64 ⟨0⟩ := hw
  exact ⟨rfl, by simp [negativeZero]⟩

end ProtoSchema
