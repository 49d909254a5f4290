import Mathlib.Data.List.Forall2
import Mathlib.Tactic.Tauto
import ProtoSchema.Schema.Descriptor

/-!
# Equality of descriptors

Descriptors and files are compared by `==`, which compares defaults as numbers. Equal ones need not
be the same: a default may be either zero. And what has a default that is no number does not even
equal itself; everything else does. Up to that, `==` is an equivalence.
-/

set_option autoImplicit false

namespace ProtoSchema

theorem list_beq_iff {α : Type} [BEq α] {as bs : List α} :
    (as == bs) = true ↔ List.Forall₂ (fun a b ↦ (a == b) = true) as bs := by
  induction as generalizing bs with
  | nil => cases bs <;> simp
  | cons a rest ih => cases bs <;> simp [ih]

instance listPartialEquivBEq {α : Type} [BEq α] [PartialEquivBEq α] :
    PartialEquivBEq (List α) where
  symm h := list_beq_iff.2 ((list_beq_iff.1 h).flip.imp fun _ _ ↦ BEq.symm)
  trans {as bs cs} h h' := by
    rw [list_beq_iff] at h h' ⊢
    induction h generalizing cs with
    | nil => exact h'
    | cons hab _ ih =>
      obtain ⟨c, rest, hbc, hrest, rfl⟩ := List.forall₂_cons_left_iff.1 h'
      exact .cons (BEq.trans hab hbc) (ih hrest)

/-- Values are compared up to an equivalence if they are compared part by part, and each part is. -/
theorem partialEquivBEq_of_parts {α β γ : Type} [BEq α] [BEq β] [PartialEquivBEq β] (rest : α → γ)
    (part : α → β)
    (h : ∀ a b, (a == b) = true ↔ rest a = rest b ∧ (part a == part b) = true) :
    PartialEquivBEq α where
  symm {a b} hab := by
    obtain ⟨hrest, hpart⟩ := (h a b).1 hab
    exact (h b a).2 ⟨hrest.symm, BEq.symm hpart⟩
  trans {a b c} hab hbc := by
    obtain ⟨hrest, hpart⟩ := (h a b).1 hab
    obtain ⟨hrest', hpart'⟩ := (h b c).1 hbc
    exact (h a c).2 ⟨hrest.trans hrest', BEq.trans hpart hpart'⟩

instance optionPartialEquivBEq {α : Type} [BEq α] [PartialEquivBEq α] :
    PartialEquivBEq (Option α) :=
  partialEquivBEq_of_parts (fun _ ↦ ()) Option.toList fun a b ↦ by cases a <;> cases b <;> simp

/-- Whether a default is no number. -/
def DefaultValue.isNaN : DefaultValue → Bool
  | float x => decide (x.read = .nan)
  | _ => false

/-- Whether the default of a field is no number. -/
def Field.hasNaN (f : Field) : Bool := f.default.any DefaultValue.isNaN

/-- Whether the default of a field of a type is no number. -/
def Descriptor.hasNaN : Descriptor → Bool
  | message m => m.fields.any Field.hasNaN
  | enum _ => false

/-- Whether a default in a file is no number. -/
def SchemaFile.hasNaN (f : SchemaFile) : Bool := f.types.any Descriptor.hasNaN

/-! ## What equal descriptors share

Descriptors are compared part by part, down to the defaults of their fields. Those of floating-point
fields are the only parts that may be equal without being the same. -/

theorem Floating.Format.numericallyEqual_iff {f : Floating.Format} {a b : Nat} :
    f.numericallyEqual a b = true ↔ f.read a ≠ .nan ∧ f.read b ≠ .nan ∧
      (a = b ∨ a % f.signBit = 0 ∧ b % f.signBit = 0) := by
  unfold numericallyEqual
  cases f.read a <;> cases f.read b <;> simp

/-- Whether a default is one of the two floating-point zeros. -/
def DefaultValue.isFloatZero : DefaultValue → Bool
  | float x => x.bits.toNat % Floating.Format.double.signBit == 0
  | _ => false

/-- Equal defaults are the same unless both are zeros, and none of them fails to be a number. -/
theorem DefaultValue.beq_iff {d e : DefaultValue} : (d == e) = true ↔
    d.isNaN = false ∧ e.isNaN = false ∧
      (d = e ∨ d.isFloatZero = true ∧ e.isFloatZero = true) := by
  change d.same e = true ↔ _
  cases d with
  | float x =>
    cases e with
    | float y =>
      have hbits : x.bits.toNat = y.bits.toNat ↔ float x = float y := by
        rw [UInt64.toNat_inj, float.injEq, Binary64.mk.injEq]
      rw [same, Binary64.numericallyEqual, Floating.Format.numericallyEqual_iff, hbits, isNaN,
        isNaN, decide_eq_false_iff_not, decide_eq_false_iff_not, isFloatZero, isFloatZero,
        beq_iff_eq, beq_iff_eq]
      rfl
    | _ => simp [same, isFloatZero]
  | _ => cases e <;> simp [same, isNaN, isFloatZero]

theorem Field.beq_iff {f g : Field} :
    (f == g) = true ↔
      ({ f with default := none } : Field) = { g with default := none } ∧
        (f.default == g.default) = true := by
  change (f.number == g.number && (f.name == g.name && (f.wireType == g.wireType &&
    (f.cardinality == g.cardinality && (f.type == g.type && (f.mapKey == g.mapKey &&
      (f.default == g.default && (f.presence == g.presence && (f.packed == g.packed &&
        (f.oneof == g.oneof && f.docs == g.docs)))))))))) = true ↔ _
  cases f
  cases g
  simp only [Bool.and_eq_true, beq_iff_eq, mk.injEq, true_and]
  tauto

theorem MessageType.beq_iff {m m' : MessageType} :
    (m == m') = true ↔
      ({ m with fields := [] } : MessageType) = { m' with fields := [] } ∧
        (m.fields == m'.fields) = true := by
  change (m.name == m'.name && (m.qualifiedName == m'.qualifiedName && (m.fields == m'.fields &&
    (m.oneofs == m'.oneofs && m.docs == m'.docs)))) = true ↔ _
  cases m
  cases m'
  simp only [Bool.and_eq_true, beq_iff_eq, mk.injEq, true_and]
  tauto

theorem Descriptor.beq_iff {d e : Descriptor} : (d == e) = true ↔
    (∃ m m', d = message m ∧ e = message m' ∧ (m == m') = true) ∨
      ∃ t t', d = enum t ∧ e = enum t' ∧ t = t' := by
  cases d with
  | message m =>
    cases e with
    | message m' =>
      change (m == m') = true ↔ _
      simp
    | enum t' =>
      change false = true ↔ _
      simp
  | enum t =>
    cases e with
    | message m' =>
      change false = true ↔ _
      simp
    | enum t' =>
      change (t == t') = true ↔ _
      rw [beq_iff_eq]
      constructor
      · intro h
        exact .inr ⟨t, t', rfl, rfl, h⟩
      · rintro (⟨m, m', h, -⟩ | ⟨t₁, t₂, h, h', heq⟩)
        · cases h
        · rw [enum.inj h, enum.inj h', heq]

theorem SchemaFile.beq_iff {f g : SchemaFile} :
    (f == g) = true ↔
      ({ f with types := [] } : SchemaFile) = { g with types := [] } ∧
        (f.types == g.types) = true := by
  change (f.name == g.name && (f.package == g.package && (f.generator == g.generator &&
    (f.imports == g.imports && f.types == g.types)))) = true ↔ _
  cases f
  cases g
  simp only [Bool.and_eq_true, beq_iff_eq, mk.injEq, and_true]
  tauto

theorem Descriptor.sort_eq_of_beq {d e : Descriptor} (h : (d == e) = true) : d.sort = e.sort := by
  rcases beq_iff.1 h with ⟨m, m', rfl, rfl, -⟩ | ⟨t, _, rfl, rfl, rfl⟩
  · rfl
  · rfl

theorem Descriptor.qualifiedName_eq_of_beq {d e : Descriptor} (h : (d == e) = true) :
    d.qualifiedName = e.qualifiedName := by
  rcases beq_iff.1 h with ⟨m, m', rfl, rfl, h⟩ | ⟨t, _, rfl, rfl, rfl⟩
  · have hname := congrArg MessageType.qualifiedName (MessageType.beq_iff.1 h).1
    exact hname
  · rfl

theorem SchemaFile.types_of_beq {f g : SchemaFile} (h : (f == g) = true) :
    f.name = g.name ∧ List.Forall₂ (fun d e ↦ (d == e) = true) f.types g.types := by
  obtain ⟨hrest, htypes⟩ := beq_iff.1 h
  have hname := congrArg SchemaFile.name hrest
  exact ⟨hname, list_beq_iff.1 htypes⟩

theorem SchemaFile.names_eq_of_beq {f g : SchemaFile} (h : (f == g) = true) :
    f.name = g.name ∧ f.types.map (·.qualifiedName) = g.types.map (·.qualifiedName) := by
  obtain ⟨hname, htypes⟩ := types_of_beq h
  refine ⟨hname, ?_⟩
  rw [← List.forall₂_eq_eq_eq, List.forall₂_map_left_iff, List.forall₂_map_right_iff]
  exact htypes.imp fun _ _ ↦ Descriptor.qualifiedName_eq_of_beq

/-! ## What equals itself -/

theorem DefaultValue.beq_self (d : DefaultValue) : (d == d) = !d.isNaN := by
  rw [Bool.eq_iff_iff, beq_iff, Bool.not_eq_true']
  simp

theorem Field.beq_self (f : Field) : (f == f) = !f.hasNaN := by
  have hdefault : (f.default == f.default) = !f.hasNaN := by
    rw [hasNaN]
    cases f.default with
    | none => rfl
    | some d => exact d.beq_self
  rw [Bool.eq_iff_iff, beq_iff, ← hdefault]
  simp

theorem list_beq_self {α : Type} [BEq α] {bad : α → Bool} (h : ∀ a, (a == a) = !bad a)
    (as : List α) : (as == as) = !as.any bad := by
  induction as with
  | nil => rfl
  | cons a rest ih => rw [List.cons_beq_cons, h, ih, List.any_cons, Bool.not_or]

theorem Descriptor.beq_self (d : Descriptor) : (d == d) = !d.hasNaN := by
  cases d with
  | message m =>
    rw [hasNaN, ← list_beq_self Field.beq_self, Bool.eq_iff_iff]
    exact MessageType.beq_iff.trans (by simp)
  | enum t =>
    rw [Bool.eq_iff_iff, beq_iff]
    simp [hasNaN]

/-- **A file equals itself** exactly if no default in it fails to be a number. -/
theorem SchemaFile.beq_self (f : SchemaFile) : (f == f) = !f.hasNaN := by
  rw [hasNaN, ← list_beq_self Descriptor.beq_self, Bool.eq_iff_iff, beq_iff]
  simp

/-! ## Equality as a partial equivalence

What equals anything equals itself, by symmetry and transitivity. So a description that is compared
with success has no default that is no number. -/

instance : PartialEquivBEq DefaultValue where
  symm h := by
    obtain ⟨hd, he, hsame⟩ := DefaultValue.beq_iff.1 h
    exact DefaultValue.beq_iff.2 ⟨he, hd, hsame.imp Eq.symm And.symm⟩
  trans h h' := by
    obtain ⟨ha, hb, hab⟩ := DefaultValue.beq_iff.1 h
    obtain ⟨-, hc, hbc⟩ := DefaultValue.beq_iff.1 h'
    refine DefaultValue.beq_iff.2 ⟨ha, hc, ?_⟩
    rcases hab with rfl | ⟨hza, hzb⟩
    · exact hbc
    · rcases hbc with rfl | ⟨-, hzc⟩
      · exact .inr ⟨hza, hzb⟩
      · exact .inr ⟨hza, hzc⟩

instance : PartialEquivBEq Field := partialEquivBEq_of_parts _ _ fun _ _ ↦ Field.beq_iff

instance : PartialEquivBEq MessageType := partialEquivBEq_of_parts _ _ fun _ _ ↦ MessageType.beq_iff

instance : PartialEquivBEq Descriptor where
  symm h := by
    rcases Descriptor.beq_iff.1 h with ⟨m, m', rfl, rfl, h⟩ | ⟨t, _, rfl, rfl, rfl⟩
    · exact Descriptor.beq_iff.2 (.inl ⟨m', m, rfl, rfl, BEq.symm h⟩)
    · exact h
  trans {d e _} h h' := by
    rcases Descriptor.beq_iff.1 h with ⟨m, m', rfl, rfl, h⟩ | ⟨t, _, rfl, rfl, rfl⟩
    · rcases Descriptor.beq_iff.1 h' with ⟨m₁, m₂, heq, rfl, h'⟩ | ⟨t, _, heq, -⟩
      · obtain rfl := Descriptor.message.inj heq
        exact Descriptor.beq_iff.2 (.inl ⟨m, m₂, rfl, rfl, BEq.trans h h'⟩)
      · cases heq
    · exact h'

instance : PartialEquivBEq SchemaFile := partialEquivBEq_of_parts _ _ fun _ _ ↦ SchemaFile.beq_iff

theorem Descriptor.hasNaN_of_beq {d e : Descriptor} (h : (d == e) = true) : d.hasNaN = false := by
  have hself : (d == d) = true := BEq.trans h (BEq.symm h)
  rwa [beq_self, Bool.not_eq_true'] at hself

theorem SchemaFile.hasNaN_of_beq {f g : SchemaFile} (h : (f == g) = true) : f.hasNaN = false := by
  have hself : (f == f) = true := BEq.trans h (BEq.symm h)
  rwa [beq_self, Bool.not_eq_true'] at hself

/-- The same description, or an equal one. An equal one need not be there: a description with a
default that is no number equals none. -/
def Descriptor.Same (d e : Descriptor) : Prop := d = e ∨ (d == e) = true

/-- The same file, or an equal one. -/
def SchemaFile.Same (f g : SchemaFile) : Prop := f = g ∨ (f == g) = true

theorem Descriptor.Same.qualifiedName_eq {d e : Descriptor} (h : d.Same e) :
    d.qualifiedName = e.qualifiedName := by
  rcases h with rfl | h
  · rfl
  · exact qualifiedName_eq_of_beq h

theorem Descriptor.Same.sort_eq {d e : Descriptor} (h : d.Same e) : d.sort = e.sort := by
  rcases h with rfl | h
  · rfl
  · exact sort_eq_of_beq h

theorem SchemaFile.Same.name_eq {f g : SchemaFile} (h : f.Same g) : f.name = g.name := by
  rcases h with rfl | h
  · rfl
  · exact (types_of_beq h).1

theorem Descriptor.Same.beq_eq {d e : Descriptor} (h : d.Same e) : (d == e) = !d.hasNaN := by
  rcases h with rfl | h
  · exact d.beq_self
  · rw [h, hasNaN_of_beq h, Bool.not_false]

theorem SchemaFile.Same.beq_eq {f g : SchemaFile} (h : f.Same g) : (f == g) = !f.hasNaN := by
  rcases h with rfl | h
  · exact f.beq_self
  · rw [h, hasNaN_of_beq h, Bool.not_false]

end ProtoSchema
