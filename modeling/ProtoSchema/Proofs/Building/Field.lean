import ProtoSchema.Building.Field
import ProtoSchema.Codec.Element
import ProtoSchema.Proofs.Result

/-!
# What a checked field satisfies

The checks that turn a member into a field are read backwards here: a field that came out of them
has a number that may stand on the wire, is packed only where its elements can be, has a key if it
is a map, a default only of its own kind, and a oneof only if it can be unset. `Field.Sound`
collects this, so the checks themselves need not be opened again.
-/

set_option autoImplicit false

namespace ProtoSchema

open Wire

/-! ## What fields are checked for

What is known of a field is said of the field alone, without the member that it came of: its number,
its default, its key and its oneof. What refers to the native types is kept in the binding beside
it. -/

/-- The native type that a field's elements refer to is one that the schema names, as a type of the
right sort. -/
def Binding.Refers (b : Binding) (resolve : Resolver) : ValueType → Prop
  | .scalar _ => True
  | .message name => ∃ t, b.target = some t ∧ resolve t = some ⟨name, .message⟩
  | .enum name => ∃ t, b.target = some t ∧ resolve t = some ⟨name, .enum⟩

/-- A declared default is of the kind of its field's elements. -/
def ValueType.Takes (type : ValueType) (d : DefaultValue) : Prop :=
  match type with
  | .scalar s => ∃ v, (Element.scalar s).defaultValue? d = some v
  | .enum _ => ∃ name n, d = .enum name n
  | .message _ => False

/-- What every checked field satisfies. -/
structure Field.Sound (f : Field) : Prop where
  number : isFieldNumber f.number = true
  packed : f.packed = true → f.type.isPackable = true
  mapKey : f.cardinality = .map → ∃ k, f.mapKey = some k
  default : ∀ d, f.default = some d → f.type.Takes d
  oneof : ∀ g, f.oneof = some g → f.cardinality = .optional ∧ f.presence = true

/-! ## The checks, one by one

Each check that passes is inverted once. A message that cannot be left out is required, and any
other type stands for one that can, in an optional or on its own. An element type refers to what the
schema names, and it is an enum only if the declared element is one. Only lists of packable elements
are packed. A default is one of the field's kind, and for an enum one of the numbers of its
description. -/

theorem isFieldNumber_iff {n : Nat} : isFieldNumber n = true ↔
    1 ≤ n ∧ n ≤ maxFieldNumber ∧ ¬(19000 ≤ n ∧ n ≤ 19999) := by
  rw [isFieldNumber, Bool.and_eq_true, Bool.and_eq_true, and_assoc, bne_iff_ne,
    Nat.one_le_iff_ne_zero, decide_eq_true_iff, Bool.not_eq_true', Bool.and_eq_false_iff,
    decide_eq_false_iff_not, decide_eq_false_iff_not, not_and_or]

theorem number_of_isFieldNumber {n : Nat} (h : isFieldNumber n = true) :
    1 ≤ n ∧ n ≤ maxFieldNumber := by
  obtain ⟨hlow, hhigh, -⟩ := isFieldNumber_iff.1 h
  exact ⟨hlow, hhigh⟩

namespace Member

variable {env : Environment} {resolve : Resolver} {typePath : String} {m : Member}

theorem type_of_shape {s : Shape} (h : m.shape typePath = .ok s) :
    match s.cardinality with
    | .required => m.type = .optional s.element ∨ m.type = s.element
    | .optional =>
      m.type = .optional s.element ∨ m.type = s.element ∧ ∀ ref, s.element ≠ .message ref
    | .repeated => m.type = .repeated s.element
    | .map => ∃ k, s.mapKey = some k ∧ m.type = .map (.scalar k) s.element := by
  rw [shape] at h
  split at h
  · next element htype =>
    obtain ⟨-, h⟩ := ite_error_eq_ok.1 h
    cases h
    cases m.required
    · exact .inl htype
    · exact .inl htype
  · next element htype =>
    obtain ⟨-, h⟩ := ite_error_eq_ok.1 h
    obtain ⟨-, h⟩ := ite_error_eq_ok.1 h
    cases h
    exact htype
  · next key value htype =>
    split at h
    · next k =>
      obtain ⟨-, h⟩ := ite_error_eq_ok.1 h
      obtain ⟨-, h⟩ := ite_error_eq_ok.1 h
      obtain ⟨-, h⟩ := ite_error_eq_ok.1 h
      cases h
      exact ⟨k, rfl, htype⟩
    · cases h
  · next ref htype =>
    cases h
    exact .inr htype
  · next hmessage =>
    cases h
    cases m.required
    · exact .inr ⟨rfl, hmessage⟩
    · exact .inr rfl

theorem mapKey_of_shape {s : Shape} (h : m.shape typePath = .ok s) (hc : s.cardinality = .map) :
    ∃ k, s.mapKey = some k := by
  have htype := type_of_shape h
  rw [hc] at htype
  obtain ⟨k, hk, -⟩ := htype
  exact ⟨k, hk⟩

theorem resolve_of_name {type : TypeRef} {expected : TypeSort} {name : String}
    (h : resolve.name env typePath m type expected = .ok name) :
    resolve type.type = some ⟨name, expected⟩ := by
  unfold Resolver.name at h
  split at h
  · cases h
  · next resolved hr =>
    split at h
    · next hs =>
      cases h
      rw [hr, ← hs]
    · cases h

theorem elementType_sound {path : List Nat} {element : FieldType} {type : ValueType} {b : Binding}
    (h : m.elementType env resolve typePath path element = .ok (type, b)) :
    b.path = path ∧ b.Refers resolve type ∧
      (∀ ref isOpen, element = .enum ref isOpen → ∃ name, type = .enum name) := by
  cases element with
  | scalar natural =>
    rw [elementType] at h
    split at h
    · cases h
      exact ⟨rfl, trivial, fun _ _ he ↦ by cases he⟩
    · split at h <;> cases h
      exact ⟨rfl, trivial, fun _ _ he ↦ by cases he⟩
  | enum ref isOpen =>
    obtain ⟨name, hn, h⟩ := bind_eq_ok.1 h
    split at h <;> cases h
    exact ⟨rfl, ⟨_, rfl, resolve_of_name hn⟩, fun _ _ _ ↦ ⟨name, rfl⟩⟩
  | message ref =>
    obtain ⟨name, hn, h⟩ := bind_eq_ok.1 h
    split at h <;> cases h
    exact ⟨rfl, ⟨_, rfl, resolve_of_name hn⟩, fun _ _ he ↦ by cases he⟩
  | optional _ => cases h
  | repeated _ => cases h
  | map _ _ => cases h

theorem packable_of_packing {c : Cardinality} {type : ValueType}
    (h : m.packing typePath c type = .ok true) : c = .repeated ∧ type.isPackable = true := by
  have hpackable : (c == .repeated && type.isPackable) = true := by
    rw [packing] at h
    split at h
    · exact (Except.ok.injEq _ _).mp h
    · split at h
      · next hp => exact hp
      · cases h
    · cases h
  obtain ⟨hc, htype⟩ := Bool.and_eq_true_iff.1 hpackable
  exact ⟨eq_of_beq hc, htype⟩

theorem exists_defaultValue_of_forScalar {s : Scalar} {l : DefaultLiteral} {d : DefaultValue}
    (h : l.forScalar s.kind = .ok d) : ∃ v, (Element.scalar s).defaultValue? d = some v := by
  cases s <;> cases l <;> unfold DefaultLiteral.forScalar at h
  all_goals
    first
    | cases h
      exact ⟨_, rfl⟩
    | obtain ⟨-, h⟩ := ite_ok_eq_ok.1 h
      cases h
      exact ⟨_, rfl⟩
    | cases h

theorem exists_enum_of_forEnum {ref : TypeRef} {l : DefaultLiteral} {d : DefaultValue}
    (h : l.forEnum env ref = .ok d) : ∃ name n, d = .enum name n := by
  unfold DefaultLiteral.forEnum at h
  split at h
  · cases h
  · split at h <;> cases h
    exact ⟨_, _, rfl⟩

theorem takes_of_checkedDefault {s : Shape} {type : ValueType} {d : DefaultValue}
    (htype : ∀ ref isOpen, s.element = .enum ref isOpen → ∃ name, type = .enum name)
    (h : m.checkedDefault env typePath s type = .ok (some d)) : type.Takes d := by
  unfold checkedDefault at h
  split at h
  · cases h
  · -- Whatever the literal was checked against, its value became the default.
    rw [mapError_eq_ok, map_eq_ok] at h
    obtain ⟨_, h, heq⟩ := h
    cases heq
    split at h
    · next he =>
      obtain ⟨name, rfl⟩ := htype _ _ he
      exact exists_enum_of_forEnum h
    · next he =>
      obtain ⟨name, rfl⟩ := htype _ _ he
      exact exists_enum_of_forEnum h
    · exact exists_defaultValue_of_forScalar h
    · exact exists_defaultValue_of_forScalar h
    · cases h

theorem unset_of_checkedOneof {s : Shape} {g : String}
    (h : m.checkedOneof typePath s = .ok (some g)) :
    s.cardinality = .optional ∧ s.presence = true := by
  unfold checkedOneof at h
  split at h
  · cases h
  · obtain ⟨hc, -⟩ := ite_error_eq_ok.1 h
    simpa [and_comm] using hc

/-! ## All checks in a row

The checks of a member follow one another, and each may use what the earlier ones made of the
member. `Passes` names all of them with what they come to, so that a lemma about checked fields
takes from it the checks that it is about. -/

/-- A member passes all checks, in their order, and `f` is the field that they leave. -/
structure Passes (m : Member) (env : Environment) (resolve : Resolver) (typePath : String)
    (path : List Nat) (s : Shape) (f : Field) (b : Binding) : Prop where
  number : m.number = some f.number
  isFieldNumber : isFieldNumber f.number = true
  name : f.name = m.fieldName
  isIdentifier : Text.isIdentifier f.name = true
  shape : m.shape typePath = .ok s
  cardinality : f.cardinality = s.cardinality
  presence : f.presence = s.presence
  mapKey : f.mapKey = s.mapKey
  elementType : m.elementType env resolve typePath path s.element = .ok (f.type, b)
  wireType : f.wireType = if s.cardinality = .map then .lengthDelimited else f.type.wireType
  packing : m.packing typePath s.cardinality f.type = .ok f.packed
  default : m.checkedDefault env typePath s f.type = .ok f.default
  oneof : m.checkedOneof typePath s = .ok f.oneof
  docs : f.docs = m.docs

theorem passes_of_toField {path : List Nat} {f : Field} {b : Binding}
    (h : m.toField env resolve typePath path = .ok (f, b)) :
    ∃ s, m.Passes env resolve typePath path s f b := by
  unfold toField at h
  dsimp only at h
  split at h
  · next n hnumber =>
    split at h
    · next hn =>
      rw [ok_bind] at h
      split at h
      · cases h
      · next hname =>
        obtain ⟨s, hs, h⟩ := bind_eq_ok.1 h
        obtain ⟨⟨type, binding⟩, htype, h⟩ := bind_eq_ok.1 h
        obtain ⟨packed, hpacked, h⟩ := bind_eq_ok.1 h
        obtain ⟨d, hd, h⟩ := bind_eq_ok.1 h
        obtain ⟨g, hg, h⟩ := bind_eq_ok.1 h
        cases h
        rw [Bool.not_eq_true, Bool.not_eq_false'] at hname
        exact ⟨s, {
          number := hnumber
          isFieldNumber := hn
          name := rfl
          isIdentifier := hname
          shape := hs
          cardinality := rfl
          presence := rfl
          mapKey := rfl
          elementType := htype
          wireType := rfl
          packing := hpacked
          default := hd
          oneof := hg
          docs := rfl }⟩
    · cases h
  · cases h

/-- **Checked fields are sound.** What is more, the binding of a field has the path that it was
asked for and refers to a type that the schema names. -/
theorem toField_sound {path : List Nat} {f : Field} {b : Binding}
    (h : m.toField env resolve typePath path = .ok (f, b)) :
    f.Sound ∧ b.path = path ∧ b.Refers resolve f.type := by
  obtain ⟨s, hm⟩ := passes_of_toField h
  obtain ⟨hpath, hrefers, henum⟩ := elementType_sound hm.elementType
  refine ⟨⟨hm.isFieldNumber, ?_, ?_, ?_, ?_⟩, hpath, hrefers⟩
  · intro hpack
    have hpacked := hm.packing
    rw [hpack] at hpacked
    exact (packable_of_packing hpacked).2
  · rw [hm.cardinality, hm.mapKey]
    exact mapKey_of_shape hm.shape
  · intro d he
    have hd := hm.default
    rw [he] at hd
    exact takes_of_checkedDefault henum hd
  · intro g he
    have hg := hm.oneof
    rw [he] at hg
    rw [hm.cardinality, hm.presence]
    exact unset_of_checkedOneof hg

end Member

end ProtoSchema
