import ProtoSchema.Proofs.Building.Message

/-!
# Fields and their declarations

What can be relied upon about a checked field is said here beside the member that it was declared
as: where its name, its number and its oneof come from, which scalar may stand for the declared one,
and what a default may be.

Integers among the defaults are in range. A default of a floating field is kept as a double,
whatever the width of the field, and is rounded to that width where it is used.
-/

set_option autoImplicit false

namespace ProtoSchema

open Text Wire

/-- The type of the single values of a field. -/
def FieldType.element : FieldType → FieldType
  | optional element => element
  | repeated element => element
  | map _ value => value
  | type => type

/-! ## What a default may be

A default fits a field if it is a value of what the field holds. The width of a floating field puts
no bound on it, and the default of an enum field is a value that the description of the enum
declares, whether it was written as a name or as a number. -/

/-- A default is a value of a kind. Of the integers among the defaults only the narrow ones need a
bound. -/
def ScalarKind.Admits : ScalarKind → DefaultValue → Prop
  | i32, .int n => Int32.minValue.toInt ≤ n.toInt ∧ n.toInt ≤ Int32.maxValue.toInt
  | u32, .uint n => n.toNat < UInt32.size
  | i64, .int _ | u64, .uint _ | f32, .float _ | f64, .float _ => True
  | bool, .bool _ | string, .string _ | bytes, .bytes _ => True
  | _, _ => False

/-- A default fits the values of a field: it is of the kind of the scalar, or one of the values that
the description of the enum declares. -/
def ValueType.Fits (env : Environment) (declared : FieldType) (d : DefaultValue) :
    ValueType → Prop
  | scalar s => s.kind.Admits d
  | enum _ => ∃ ref isOpen info variants, declared = .enum ref isOpen ∧
    ref.info? env = some info ∧ info.variants? = some variants ∧
    ∃ v ∈ variants, d = .enum v.valueName v.number
  | message _ => False

/-- The native kinds that may be the key of a map. -/
def ScalarKind.IsKey (kind : ScalarKind) : Prop :=
  kind ∈ [i32, i64, u32, u64, bool, string]

/-- What can be relied upon about a field and the member that it was declared as. -/
structure Field.WellFormed (f : Field) (env : Environment) (m : Member) : Prop where
  number : m.number = some f.number ∧ 1 ≤ f.number ∧ f.number ≤ 0x1FFFFFFF ∧
    ¬(19000 ≤ f.number ∧ f.number ≤ 19999)
  name : f.name = m.fieldName ∧ isIdentifier f.name = true
  oneof : f.oneof = m.oneof ∧ (∀ g, f.oneof = some g →
    isIdentifier g = true ∧ f.cardinality = .optional ∧ f.presence = true)
  packed : f.packed = true → f.cardinality = .repeated ∧ f.type.isPackable = true
  mapKey : (f.cardinality = .map ↔ f.mapKey.isSome = true) ∧
    ∀ key, f.mapKey = some key → key.kind.IsKey
  default : ∀ d, f.default = some d →
    (f.cardinality = .required ∨ f.cardinality = .optional) ∧ f.type.Fits env m.type.element d
  /-- A scalar may be overridden by one of the same kind. -/
  scalar : ∀ s, f.type = .scalar s → ∃ natural, m.type.element = .scalar natural ∧
    s.kind = natural.kind

/-! ## The checks, one by one

A shape keeps the declared element, and a map its key. The scalar that a member asks for may take
the place of the declared one only where both stand for one kind of value, so that what is known of
the declared type is known of the type of the field as well. -/

namespace Member

variable {env : Environment} {resolve : Resolver} {typePath : String} {m : Member}

theorem admits_of_forScalar {kind : ScalarKind} {l : DefaultLiteral} {d : DefaultValue}
    (h : l.forScalar kind = .ok d) : kind.Admits d := by
  unfold DefaultLiteral.forScalar at h
  split at h
  · cases h
    trivial
  · next n =>
    obtain ⟨hrange, h⟩ := ite_ok_eq_ok.1 h
    cases h
    exact hrange
  · cases h
    trivial
  · next n =>
    obtain ⟨⟨hmin, hmax⟩, h⟩ := ite_ok_eq_ok.1 h
    cases h
    have htoNat : (n.toUInt64.toNat : Int) = n.toInt := by
      have hcond := BitVec.toInt_eq_toNat_cond n.toBitVec
      change (n.toBitVec.toNat : Int) = n.toBitVec.toInt
      change 0 ≤ n.toBitVec.toInt at hmin
      split at hcond <;> omega
    change n.toUInt64.toNat < UInt32.size
    omega
  · obtain ⟨-, h⟩ := ite_ok_eq_ok.1 h
    cases h
    trivial
  all_goals cases h
  all_goals trivial

theorem exists_variant_of_forEnum {ref : TypeRef} {l : DefaultLiteral} {d : DefaultValue}
    (h : l.forEnum env ref = .ok d) : ∃ info variants, ref.info? env = some info ∧
      info.variants? = some variants ∧ ∃ v ∈ variants, d = .enum v.valueName v.number := by
  unfold DefaultLiteral.forEnum at h
  split at h
  · cases h
  · next variants hvariants =>
    obtain ⟨info, hinfo, hvariants⟩ := Option.bind_eq_some_iff.1 hvariants
    split at h
    · next v hv =>
      cases h
      exact ⟨info, variants, hinfo, hvariants, v, List.mem_of_find?_eq_some hv, rfl⟩
    · cases h

theorem element_of_shape {s : Shape} (h : m.shape typePath = .ok s) :
    s.element = m.type.element ∧ (s.cardinality = .map ↔ s.mapKey.isSome = true) ∧
      ∀ key, s.mapKey = some key → key.isMapKey = true := by
  rw [shape] at h
  split at h
  · next element htype =>
    obtain ⟨-, h⟩ := ite_error_eq_ok.1 h
    cases h
    rw [htype]
    cases m.required <;> simp [FieldType.element]
  · next element htype =>
    obtain ⟨-, h⟩ := ite_error_eq_ok.1 h
    obtain ⟨-, h⟩ := ite_error_eq_ok.1 h
    cases h
    rw [htype]
    simp [FieldType.element]
  · next key value htype =>
    split at h
    · next k =>
      obtain ⟨hk, h⟩ := ite_error_eq_ok.1 h
      obtain ⟨-, h⟩ := ite_error_eq_ok.1 h
      obtain ⟨-, h⟩ := ite_error_eq_ok.1 h
      cases h
      rw [htype]
      simpa [FieldType.element] using hk
    · cases h
  · next ref htype =>
    cases h
    rw [htype]
    simp [FieldType.element]
  · next hoptional hrepeated hmap _ =>
    cases h
    have helement : m.type = m.type.element := by
      cases htype : m.type with
      | optional element => exact absurd htype (hoptional element)
      | repeated element => exact absurd htype (hrepeated element)
      | map key value => exact absurd htype (hmap key value)
      | scalar _ | enum _ _ | message _ => rfl
    refine ⟨helement, ?_⟩
    cases m.required <;> simp

theorem declared_of_elementType {path : List Nat} {element : FieldType} {type : ValueType}
    {b : Binding} (h : m.elementType env resolve typePath path element = .ok (type, b)) :
    (∀ s, type = .scalar s → ∃ natural, element = .scalar natural ∧ s.kind = natural.kind) ∧
      ∀ ref isOpen, element = .enum ref isOpen → ∃ name, type = .enum name := by
  obtain ⟨-, hrefers, henum⟩ := elementType_sound h
  refine ⟨?_, henum⟩
  rintro s rfl
  cases element with
  | scalar natural =>
    rw [elementType] at h
    split at h
    · cases h
      exact ⟨_, rfl, rfl⟩
    · obtain ⟨hkind, h⟩ := ite_ok_eq_ok.1 h
      cases h
      exact ⟨natural, rfl, hkind⟩
  | enum ref isOpen =>
    obtain ⟨name, hname⟩ := henum ref isOpen rfl
    cases hname
  | message ref =>
    obtain ⟨name, -, h⟩ := bind_eq_ok.1 h
    split at h <;> cases h
  | optional _ | repeated _ | map _ _ => cases h

theorem fits_of_checkedDefault {s : Shape} {type : ValueType} {d : DefaultValue}
    (htype : ∀ ref isOpen, s.element = .enum ref isOpen → ∃ name, type = .enum name)
    (h : m.checkedDefault env typePath s type = .ok (some d)) :
    (s.cardinality = .required ∨ s.cardinality = .optional) ∧ type.Fits env s.element d := by
  have henum : ∀ {ref isOpen literal}, s.element = .enum ref isOpen →
      DefaultLiteral.forEnum env ref literal = .ok d → type.Fits env s.element d := by
    intro ref isOpen literal helement hd
    obtain ⟨name, rfl⟩ := htype ref isOpen helement
    obtain ⟨info, variants, hinfo, hvariants, hv⟩ := exists_variant_of_forEnum hd
    exact ⟨ref, isOpen, info, variants, helement, hinfo, hvariants, hv⟩
  unfold checkedDefault at h
  split at h
  · cases h
  · obtain ⟨d', hd, heq⟩ := map_eq_ok.1 (mapError_eq_ok.1 h)
    clear h
    cases heq
    split at hd
    · next hc he => exact ⟨.inl hc, henum he hd⟩
    · next hc he => exact ⟨.inr hc, henum he hd⟩
    · next hc _ => exact ⟨.inl hc, admits_of_forScalar hd⟩
    · next hc _ => exact ⟨.inr hc, admits_of_forScalar hd⟩
    · cases hd

theorem declared_of_checkedOneof {s : Shape} {g : Option String}
    (h : m.checkedOneof typePath s = .ok g) :
    g = m.oneof ∧ ∀ name, g = some name → isIdentifier name = true := by
  unfold checkedOneof at h
  split at h
  · next hnone =>
    cases h
    exact ⟨hnone.symm, fun name hname ↦ by cases hname⟩
  · next group hsome =>
    obtain ⟨-, h⟩ := ite_error_eq_ok.1 h
    obtain ⟨hname, h⟩ := ite_error_eq_ok.1 h
    cases h
    rw [Bool.not_eq_true, Bool.not_eq_false'] at hname
    refine ⟨hsome.symm, fun name heq ↦ ?_⟩
    cases heq
    exact hname

theorem isKey_of_isMapKey {s : Scalar} (h : s.isMapKey = true) : s.kind.IsKey := by
  cases s <;> simp [Scalar.isMapKey, Scalar.kind, ScalarKind.IsKey] at h ⊢

/-- Checked fields are well formed. -/
theorem wellFormed_of_toField {path : List Nat} {f : Field} {b : Binding}
    (h : m.toField env resolve typePath path = .ok (f, b)) : f.WellFormed env m := by
  obtain ⟨s, hm⟩ := passes_of_toField h
  obtain ⟨helement, hmap, hkey⟩ := element_of_shape hm.shape
  obtain ⟨hscalar, henum⟩ := declared_of_elementType hm.elementType
  obtain ⟨honeof, hidentifier⟩ := declared_of_checkedOneof hm.oneof
  obtain ⟨hlow, hhigh, hreserved⟩ := isFieldNumber_iff.1 hm.isFieldNumber
  have hmax : maxFieldNumber = 0x1FFFFFFF := by decide
  exact {
    number := ⟨hm.number, hlow, hmax ▸ hhigh, hreserved⟩
    name := ⟨hm.name, hm.isIdentifier⟩
    oneof := by
      refine ⟨honeof, fun g hg ↦ ⟨hidentifier g hg, ?_⟩⟩
      have hunset := hm.oneof
      rw [hg] at hunset
      rw [hm.cardinality, hm.presence]
      exact unset_of_checkedOneof hunset
    packed := by
      intro hpacked
      have hpacking := hm.packing
      rw [hpacked] at hpacking
      rw [hm.cardinality]
      exact packable_of_packing hpacking
    mapKey := by
      rw [hm.cardinality, hm.mapKey]
      exact ⟨hmap, fun key hk ↦ isKey_of_isMapKey (hkey key hk)⟩
    default := by
      intro d hd
      have hdefault := hm.default
      rw [hd] at hdefault
      rw [hm.cardinality, ← helement]
      exact fits_of_checkedDefault henum hdefault
    scalar := by
      rw [← helement]
      exact hscalar }

end Member

end ProtoSchema
