import ProtoSchema.Proofs.Result
import ProtoSchema.Types.Record

/-!
# Values of a declared shape

A value has a declared shape if it is of the scalar's kind, an enum number, an instance of the
referenced type, or a list or map of such values. Two things are not asked. Scalar types of one kind
share their values, so the type that a scalar travels as is left open; and a number may be one that
the enum does not declare.

A native type that suits a shape holds every value of it, up to that last point. This is the only
way in which a step of a factory that takes a member out of its slot may fail, provided that an
empty slot stands for a member which has a value of its own for being left out.
-/

set_option autoImplicit false

namespace ProtoSchema

/-- The kind of a value that a scalar type may have. -/
def Value.kind? : Value → Option ScalarKind
  | i32 _ => some .i32
  | i64 _ => some .i64
  | u32 _ => some .u32
  | u64 _ => some .u64
  | f32 _ => some .f32
  | f64 _ => some .f64
  | bool _ => some .bool
  | string _ => some .string
  | bytes _ => some .bytes
  | _ => none

/-- A value has a declared shape. -/
def FieldType.Holds : FieldType → Value → Prop
  | scalar s, v => v.kind? = some s.kind
  | enum _ _, v => ∃ n, v = .enum n
  | message ref, v => ∃ i : Instance, v = .message i ∧ i.type = ref.type
  | optional element, v => element.Holds v
  | repeated element, v => ∃ vs, v = .list vs ∧ ∀ a ∈ vs, element.Holds a
  | map key value, v => ∃ es, v = .map es ∧ ∀ e ∈ es, key.Holds e.1 ∧ value.Holds e.2

/-! ## Native types

A native type is as wide as its shape, but for enums, which hold the numbers that they declare. -/

namespace NativeType

/-- A member of the native type may be declared with the shape. Two references to one type count as
the same whatever their sources. -/
def Suits : NativeType → FieldType → Prop
  | plain k, .scalar s => s.kind = k.scalar.kind
  | f32, .scalar s => s.kind = .f32
  | f64, .scalar s => s.kind = .f64
  | closedEnum e, .enum ref _ | openEnum e, .enum ref _ => ref.type = e.type
  | message type, .message ref => ref.type = type
  | optional t, .optional element | list t, .repeated element => t.Suits element
  | boxed t, declared => t.Suits declared
  | sortedMap k t, .map key value | hashedMap k t, .map key value =>
    (∃ s, key = .scalar s ∧ s.kind = k.scalar.kind) ∧ t.Suits value
  | _, _ => False

/-- Every enum in the type declares a value, as every enum whose description is derived does. -/
def DeclaresValues : NativeType → Prop
  | closedEnum e | openEnum e => e.numbers ≠ []
  | optional t | boxed t | list t | sortedMap _ t | hashedMap _ t => t.DeclaresValues
  | _ => True

/-- A native type suits the shape that it declares. -/
theorem suits_fieldType (t : NativeType) : t.Suits t.fieldType := by
  induction t with
  | plain | f32 | f64 | closedEnum | openEnum | message => rfl
  | optional t ih | boxed t ih | list t ih => exact ih
  | sortedMap k t ih | hashedMap k t ih => exact ⟨⟨k.scalar, rfl, rfl⟩, ih⟩

end NativeType

theorem KeyType.exists_fromValue {k : KeyType} {v : Value} (h : v.kind? = some k.scalar.kind) :
    ∃ a, k.fromValue v = .ok a := by
  induction k with
  | boxed k ih => exact ih h
  | _ =>
    cases v <;> cases h
    exact ⟨_, rfl⟩

theorem NativeEnum.exists_first {e : NativeEnum} (h : e.numbers ≠ []) : ∃ a, e.first? = some a := by
  have hne : List.finRange e.numbers.length ≠ [] := by
    rw [← List.length_pos_iff, List.length_finRange]
    exact List.length_pos_iff.2 h
  exact ⟨_, List.head?_eq_some_head hne⟩

theorem NativeEnum.exists_ofNumber? (e : NativeEnum) (a : e.Known) :
    ∃ b, e.ofNumber? (e.number a) = some b := by
  rw [← Option.isSome_iff_exists, ofNumber?, List.find?_isSome]
  exact ⟨a, List.mem_finRange a, beq_self_eq_true _⟩

/-- An error that says no more than that an enum does not declare a number. -/
def ValueError.IsUnknownNumber (e : ValueError) : Prop := ∃ path n, e = .unknownEnumValue path n

namespace NativeType

variable {t : NativeType} {declared : FieldType} {v : Value} {e : ValueError}

theorem exists_of_mapFrom_eq_error {α β : Type} {key : Value → Except ValueError α}
    {value : Value → Except ValueError β} {put : α → β → List (α × β) → List (α × β)}
    {es : List (Value × Value)} (h : mapFrom key value put (.map es) = .error e) :
    ∃ entry ∈ es, key entry.1 = .error e ∨ value entry.2 = .error e := by
  rcases bind_eq_error.1 h with h | ⟨entries, -, h⟩
  · obtain ⟨entry, hentry, h⟩ := exists_of_mapM_eq_error h
    refine ⟨entry, hentry, ?_⟩
    rcases bind_eq_error.1 h with h | ⟨_, -, h⟩
    · exact .inl h
    · rcases bind_eq_error.1 h with h | ⟨_, -, h⟩
      · exact .inr h
      · cases h
  · cases h

/-- **A native type holds the values of a shape that it suits**, except for numbers that an enum
does not declare. -/
theorem isUnknownNumber_of_fromValue (ht : t.Suits declared) (hv : declared.Holds v)
    (h : t.fromValue v = .error e) : e.IsUnknownNumber := by
  induction t generalizing declared v e with
  | plain k =>
    cases declared <;> try exact ht.elim
    obtain ⟨a, ha⟩ := KeyType.exists_fromValue (hv.trans (congrArg some ht))
    rw [fromValue, ha] at h
    cases h
  | f32 | f64 =>
    cases declared <;> try exact ht.elim
    have hkind := hv.trans (congrArg some ht)
    cases v <;> cases hkind
    cases h
  | closedEnum native =>
    cases declared <;> try exact ht.elim
    obtain ⟨n, rfl⟩ := hv
    rw [fromValue] at h
    split at h <;> cases h
    exact ⟨_, _, rfl⟩
  | openEnum native =>
    cases declared <;> try exact ht.elim
    obtain ⟨n, rfl⟩ := hv
    rw [fromValue] at h
    split at h <;> cases h
  | message type =>
    cases declared <;> try exact ht.elim
    obtain ⟨i, rfl, hi⟩ := hv
    rw [fromValue, dif_pos (hi.trans ht)] at h
    cases h
  | optional t ih =>
    cases declared <;> try exact ht.elim
    exact ih ht hv (map_eq_error.1 h)
  | boxed t ih => exact ih ht hv h
  | list t ih =>
    cases declared <;> try exact ht.elim
    obtain ⟨vs, rfl, hvs⟩ := hv
    obtain ⟨a, ha, h⟩ := exists_of_mapM_eq_error h
    exact ih ht (hvs a ha) h
  | sortedMap k t ih | hashedMap k t ih =>
    cases declared <;> try exact ht.elim
    obtain ⟨⟨s, rfl, hs⟩, ht⟩ := ht
    obtain ⟨es, rfl, hes⟩ := hv
    rw [fromValue] at h
    obtain ⟨entry, hentry, h⟩ := exists_of_mapFrom_eq_error h
    obtain ⟨hkey, hvalue⟩ := hes entry hentry
    rcases h with h | h
    · obtain ⟨a, ha⟩ := KeyType.exists_fromValue (hkey.trans (congrArg some hs))
      rw [ha] at h
      cases h
    · exact ih ht hvalue h

theorem exists_missing (ht : t.Suits declared) (hvalues : t.DeclaresValues)
    (hmessage : ∀ ref, declared ≠ .message ref) : ∃ a, t.missing? = some a := by
  induction t with
  | plain | f32 | f64 | optional | list | sortedMap | hashedMap => exact ⟨_, rfl⟩
  | closedEnum native => exact NativeEnum.exists_first hvalues
  | openEnum native =>
    obtain ⟨a, ha⟩ := NativeEnum.exists_first hvalues
    exact ⟨.inl a, congrArg (Option.map Sum.inl) ha⟩
  | message type =>
    cases declared <;> try exact ht.elim
    exact absurd rfl (hmessage _)
  | boxed t ih => exact ih ht hvalues

end NativeType

/-! ## Steps of factories

A step takes a slot, empties it and converts what it held. It fails where the conversion does, or
where the slot is empty and nothing stands for that. -/

/-- An error that says no more than that an enum does not declare the number of a member. -/
def FactoryError.IsUnknownNumber (e : FactoryError) : Prop :=
  ∃ typePath member cause, e = .value typePath member cause ∧ cause.IsUnknownNumber

namespace Take

variable {α β : Type} {values : FieldValues}

theorem bind_eq_ok {step : Take α} {next : α → Take β} {r : β × FieldValues} :
    (step >>= next) values = .ok r ↔
      ∃ a rest, step values = .ok (a, rest) ∧ next a rest = .ok r := by
  change (step values >>= fun (a, rest) ↦ next a rest) = _ ↔ _
  rw [ProtoSchema.bind_eq_ok, Prod.exists]

theorem bind_eq_error {step : Take α} {next : α → Take β} {e : FactoryError} :
    (step >>= next) values = .error e ↔ step values = .error e ∨
      ∃ a rest, step values = .ok (a, rest) ∧ next a rest = .error e := by
  change (step values >>= fun (a, rest) ↦ next a rest) = _ ↔ _
  rw [ProtoSchema.bind_eq_error, Prod.exists]

theorem map_eq_ok {f : α → β} {step : Take α} {b : β} {rest : FieldValues} :
    (f <$> step) values = .ok (b, rest) ↔ ∃ a, step values = .ok (a, rest) ∧ f a = b := by
  change (step values >>= fun (a, rest) ↦ pure (f a, rest)) = _ ↔ _
  cases step values with
  | error e => simp
  | ok r => simp [Prod.ext_iff, and_comm]

theorem map_eq_error {f : α → β} {step : Take α} {e : FactoryError} :
    (f <$> step) values = .error e ↔ step values = .error e := by
  change (step values >>= fun (a, rest) ↦ pure (f a, rest)) = _ ↔ _
  cases step values <;> simp

theorem run'_eq_ok {step : Take α} {a : α} :
    step.run' values = .ok a ↔ ∃ rest, step values = .ok (a, rest) := by
  change (step values).map (·.1) = .ok a ↔ _
  rw [ProtoSchema.map_eq_ok, Prod.exists]
  constructor
  · rintro ⟨_, rest, h, rfl⟩
    exact ⟨rest, h⟩
  · rintro ⟨rest, h⟩
    exact ⟨a, rest, h, rfl⟩

theorem run'_eq_error {step : Take α} {e : FactoryError} :
    step.run' values = .error e ↔ step values = .error e := by
  change (step values).map (·.1) = .error e ↔ _
  rw [ProtoSchema.map_eq_error]

end Take

namespace FieldValues

variable {values : FieldValues} {k : Nat} {slot : Option Value} {e : FactoryError}

theorem bind_takeValue {α : Type} {step : Option Value → Take α}
    (hslot : values.slots[k]? = some slot) :
    (takeValue k >>= step) values = step slot { values with slots := values.slots.set k none } := by
  change (takeValue k values >>= fun (a, v) ↦ step a v) = _
  rw [takeValue, hslot]
  rfl

theorem explain_eq_error {α : Type} {result : Except ValueError α}
    (h : explain k result values = .error e) :
    ∃ cause, result = .error cause ∧
      e = .value values.typePath (values.memberName k) cause := by
  cases result with
  | ok a => cases h
  | error cause =>
    cases h
    exact ⟨cause, rfl, rfl⟩

theorem isUnknownNumber_of_take {t : NativeType} {declared : FieldType} (ht : t.Suits declared)
    (hvalues : t.DeclaresValues) (hslot : values.slots[k]? = some slot)
    (hholds : ∀ v, slot = some v → declared.Holds v)
    (hmissing : slot = none → ∀ ref, declared ≠ .message ref)
    (h : take t k values = .error e) : e.IsUnknownNumber := by
  rw [take, bind_takeValue hslot] at h
  cases slot with
  | some v =>
    obtain ⟨cause, hcause, rfl⟩ := explain_eq_error h
    exact ⟨_, _, cause, rfl, t.isUnknownNumber_of_fromValue ht (hholds v rfl) hcause⟩
  | none =>
    obtain ⟨a, ha⟩ := NativeType.exists_missing ht hvalues (hmissing rfl)
    rw [ha] at h
    cases h

end FieldValues

theorem Value.exists_toInstance {v : Value} {ref : TypeRef} (h : (FieldType.message ref).Holds v) :
    ∃ i, v.toInstance ref.type = .ok i := by
  obtain ⟨i, rfl, hi⟩ := h
  exact ⟨i, if_pos hi⟩

namespace FieldValues

variable {values : FieldValues} {k : Nat} {slot : Option Value} {e : FactoryError} {ref : TypeRef}

theorem exists_takeForeignOptional (hslot : values.slots[k]? = some slot)
    (hholds : ∀ v, slot = some v → (FieldType.message ref).Holds v) :
    ∃ found rest, takeForeignOptional ref.type k values = .ok (found, rest) ∧
      found.isSome = slot.isSome := by
  rw [takeForeignOptional, bind_takeValue hslot]
  cases slot with
  | some v =>
    obtain ⟨i, hi⟩ := v.exists_toInstance (hholds v rfl)
    dsimp only
    rw [hi]
    exact ⟨some i, _, rfl, rfl⟩
  | none => exact ⟨none, _, rfl, rfl⟩

theorem exists_takeForeign {v : Value} (hslot : values.slots[k]? = some (some v))
    (hv : (FieldType.message ref).Holds v) :
    ∃ i rest, takeForeign ref.type k values = .ok (i, rest) := by
  have hholds : ∀ w, some v = some w → (FieldType.message ref).Holds w := by
    rintro w ⟨⟩
    exact hv
  obtain ⟨found, rest, hfound, hsome⟩ := exists_takeForeignOptional hslot hholds
  obtain ⟨i, rfl⟩ := Option.isSome_iff_exists.1 hsome
  refine ⟨i, rest, ?_⟩
  change (takeForeignOptional ref.type k values >>= fun (found, rest) ↦ orMissing k found rest) = _
  rw [hfound]
  rfl

theorem exists_takeForeignList (hslot : values.slots[k]? = some slot)
    (hholds : ∀ v, slot = some v → (FieldType.repeated (.message ref)).Holds v) :
    ∃ is rest, takeForeignList ref.type k values = .ok (is, rest) := by
  rw [takeForeignList, bind_takeValue hslot]
  cases slot with
  | some v =>
    obtain ⟨vs, rfl, hvs⟩ := hholds v rfl
    cases his : vs.mapM (·.toInstance ref.type) with
    | ok is => exact ⟨is, _, by dsimp only; rw [his]; rfl⟩
    | error cause =>
      obtain ⟨a, ha, hcause⟩ := exists_of_mapM_eq_error his
      obtain ⟨i, hi⟩ := a.exists_toInstance (hvs a ha)
      rw [hi] at hcause
      cases hcause
  | none => exact ⟨[], _, rfl⟩

end FieldValues

namespace Storage

/-- A member of the declared kind may be held so. -/
def Suits (s : Storage) (kind : MemberKind) : Prop :=
  match s with
  | native t => ∃ declared, kind = .field declared ∧ t.Suits declared
  | flatten parent => ∃ ref : TypeRef, kind = .flatten ref ∧ ref.type = parent
  | foreign type => ∃ ref : TypeRef, kind = .field (.message ref) ∧ ref.type = type
  | foreignOptional type =>
    ∃ ref : TypeRef, kind = .field (.optional (.message ref)) ∧ ref.type = type
  | foreignList type => ∃ ref : TypeRef, kind = .field (.repeated (.message ref)) ∧ ref.type = type

/-- Every enum that the member may hold declares a value. -/
def DeclaresValues : Storage → Prop
  | native t => t.DeclaresValues
  | _ => True

theorem suits_kind (s : Storage) : s.Suits s.kind := by
  cases s with
  | native t => exact ⟨_, rfl, t.suits_fieldType⟩
  | _ => exact ⟨_, rfl, rfl⟩

/-- Taking the member from a slot that holds so much fails only because an enum does not declare a
number. -/
def TakesFrom (s : Storage) (k : Nat) (slot : Option Value) : Prop :=
  ∀ (values : FieldValues) (e : FactoryError), values.slots[k]? = some slot →
    s.take k values = .error e → e.IsUnknownNumber

/-- **Members are taken from slots of their shape**, or from empty ones where they may be left
out. -/
theorem takesFrom_of_holds {s : Storage} {m : Member} {k : Nat} {slot : Option Value}
    (hs : s.Suits m.kind) (hvalues : s.DeclaresValues)
    (hholds : ∀ v, slot = some v → m.type.Holds v)
    (hmissing : slot = none → ∀ ref, m.type ≠ .message ref) : s.TakesFrom k slot := by
  intro values e hslot h
  unfold Member.type at hholds hmissing
  cases s with
  | native t =>
    obtain ⟨declared, hkind, ht⟩ := hs
    rw [hkind] at hholds hmissing
    exact FieldValues.isUnknownNumber_of_take ht hvalues hslot hholds hmissing
      (Take.map_eq_error.1 h)
  | flatten parent =>
    obtain ⟨ref, hkind, hparent⟩ := hs
    rw [hkind] at hholds hmissing
    have ht : (NativeType.message parent).Suits (.message ref) := hparent
    exact FieldValues.isUnknownNumber_of_take ht trivial hslot hholds hmissing
      (Take.map_eq_error.1 h)
  | foreign type =>
    obtain ⟨ref, hkind, rfl⟩ := hs
    rw [hkind] at hholds hmissing
    cases slot with
    | some v =>
      obtain ⟨i, rest, hi⟩ := FieldValues.exists_takeForeign hslot (hholds v rfl)
      cases hi.symm.trans (Take.map_eq_error.1 h)
    | none => exact absurd rfl (hmissing rfl ref)
  | foreignOptional type =>
    obtain ⟨ref, hkind, rfl⟩ := hs
    rw [hkind] at hholds
    obtain ⟨found, rest, hfound, -⟩ := FieldValues.exists_takeForeignOptional hslot hholds
    change (FieldValues.takeForeignOptional ref.type k values >>= _) = _ at h
    rw [hfound] at h
    cases found <;> cases h
  | foreignList type =>
    obtain ⟨ref, hkind, rfl⟩ := hs
    rw [hkind] at hholds
    obtain ⟨is, rest, his⟩ := FieldValues.exists_takeForeignList hslot hholds
    change (FieldValues.takeForeignList ref.type k values >>= _) = _ at h
    rw [his] at h
    cases h

end Storage

end ProtoSchema
