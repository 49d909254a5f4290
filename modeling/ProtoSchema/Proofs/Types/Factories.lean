import ProtoSchema.Proofs.Value.Shape

/-!
# Factories build instances of their own types

A factory is a function that a description brings along, and it may build what it likes. The
factories that the library itself supplies, those of the built-in adapters and of record types,
build instances of the described type only. Those of record types fail only where taking a member
does.
-/

set_option autoImplicit false

namespace ProtoSchema

open FieldValues

/-- The factory builds instances of the type only. -/
def Factory.Builds (factory : Factory) (type : TypeId) : Prop :=
  ∀ values i, factory values = .ok i → i.type = type

/-- The factory of a described message builds instances of the described type only. -/
def TypeInfo.BuildsOwn (info : TypeInfo) : Prop :=
  ∀ message, info.message? = some message → message.factory.Builds info.type

theorem RecordType.builds (r : RecordType) : r.factory.Builds r.type := by
  intro values i h
  obtain ⟨rest, h⟩ := Take.run'_eq_ok.1 h
  obtain ⟨members, rest, -, h⟩ := Take.bind_eq_ok.1 h
  split at h
  · obtain ⟨unknown, rest, -, h⟩ := Take.bind_eq_ok.1 h
    cases h
    rfl
  · cases h
    rfl

theorem bigIntegerFactory_builds : bigIntegerFactory.Builds .bigInteger := by
  intro values i h
  obtain ⟨rest, h⟩ := Take.run'_eq_ok.1 h
  obtain ⟨bytes, rest, -, h⟩ := Take.bind_eq_ok.1 h
  cases h
  rfl

theorem ArrayForm.builds {f : ArrayForm} (hf : ∀ as, (f.ofElements as).type = f.type) :
    f.factory.Builds f.type := by
  intro values i h
  obtain ⟨rest, h⟩ := Take.run'_eq_ok.1 h
  obtain ⟨size, rest, -, h⟩ := Take.bind_eq_ok.1 h
  obtain ⟨elements, rest, -, h⟩ := Take.bind_eq_ok.1 h
  split at h
  · cases h
    exact hf elements
  · obtain ⟨state, rest, -, h⟩ := Take.bind_eq_ok.1 h
    cases h

/-- **Built-in adapters build instances of the types that they describe.** -/
theorem buildsOwn_of_builtinAdapters : ∀ info ∈ builtinAdapters, info.BuildsOwn := by
  simp only [builtinAdapters, List.forall_mem_cons, List.not_mem_nil, false_implies, implies_true,
    and_true]
  refine ⟨?_, ?_, ?_, ?_, ?_⟩ <;> rintro message ⟨⟩
  · exact ArrayForm.builds fun _ ↦ rfl
  · exact ArrayForm.builds fun _ ↦ rfl
  · exact ArrayForm.builds fun _ ↦ rfl
  · exact ArrayForm.builds fun _ ↦ rfl
  · exact bigIntegerFactory_builds

theorem TypeInfo.buildsOwn_of_mem {env : Environment} (henv : ∀ info ∈ env, info.BuildsOwn)
    {info : TypeInfo} (h : info ∈ env ++ builtinAdapters) : info.BuildsOwn :=
  (List.mem_append.1 h).elim (henv info) (buildsOwn_of_builtinAdapters info)

/-! ## Records

Members are taken one after the other, each out of its own slot. A member that was taken leaves the
others as they are. -/

namespace FieldValues

variable {α : Type} {values rest : FieldValues} {k : Nat} {a : α}

theorem rest_of_takeValue {slot : Option Value} (h : takeValue k values = .ok (slot, rest)) :
    rest = { values with slots := values.slots.set k none } := by
  unfold takeValue at h
  split at h
  · cases h
    rfl
  · cases h

theorem rest_of_explain {result : Except ValueError α}
    (h : explain k result values = .ok (a, rest)) : rest = values := by
  unfold explain at h
  split at h <;> cases h
  rfl

theorem rest_of_orMissing {value : Option α} (h : orMissing k value values = .ok (a, rest)) :
    rest = values := by
  unfold orMissing at h
  split at h <;> cases h
  rfl

theorem rest_of_take {t : NativeType} {a : t.Carrier} (h : take t k values = .ok (a, rest)) :
    rest = { values with slots := values.slots.set k none } := by
  obtain ⟨slot, rest', hslot, h⟩ := Take.bind_eq_ok.1 h
  rw [← rest_of_takeValue hslot]
  cases slot with
  | some v => exact rest_of_explain h
  | none => exact rest_of_orMissing h

theorem rest_of_takeForeignOptional {type : TypeId} {found : Option Instance}
    (h : takeForeignOptional type k values = .ok (found, rest)) :
    rest = { values with slots := values.slots.set k none } := by
  obtain ⟨slot, rest', hslot, h⟩ := Take.bind_eq_ok.1 h
  rw [← rest_of_takeValue hslot]
  cases slot with
  | some v =>
    obtain ⟨i, h, -⟩ := Take.map_eq_ok.1 h
    exact rest_of_explain h
  | none =>
    cases h
    rfl

theorem rest_of_takeForeignList {type : TypeId} {is : List Instance}
    (h : takeForeignList type k values = .ok (is, rest)) :
    rest = { values with slots := values.slots.set k none } := by
  obtain ⟨slot, rest', hslot, h⟩ := Take.bind_eq_ok.1 h
  rw [← rest_of_takeValue hslot]
  split at h
  · exact rest_of_explain h
  · exact rest_of_explain h
  · cases h
    rfl

end FieldValues

theorem Storage.rest_of_take {s : Storage} {k : Nat} {values rest : FieldValues} {v : Value}
    (h : s.take k values = .ok (v, rest)) :
    rest = { values with slots := values.slots.set k none } := by
  cases s with
  | native t =>
    obtain ⟨a, h, -⟩ := Take.map_eq_ok.1 h
    exact FieldValues.rest_of_take h
  | flatten parent =>
    obtain ⟨a, h, -⟩ := Take.map_eq_ok.1 h
    exact FieldValues.rest_of_take h
  | foreign type =>
    obtain ⟨i, h, -⟩ := Take.map_eq_ok.1 h
    obtain ⟨found, rest', hfound, h⟩ := Take.bind_eq_ok.1 h
    rw [← rest_of_takeForeignOptional hfound]
    exact rest_of_orMissing h
  | foreignOptional type =>
    obtain ⟨found, rest', hfound, h⟩ := Take.bind_eq_ok.1 h
    rw [← rest_of_takeForeignOptional hfound]
    cases found <;> cases h <;> rfl
  | foreignList type =>
    obtain ⟨is, rest', his, h⟩ := Take.bind_eq_ok.1 h
    rw [← rest_of_takeForeignList his]
    cases h
    rfl

theorem RecordType.isUnknownNumber_of_takeAll {members : List RecordMember} {index : Nat}
    {values : FieldValues} {e : FactoryError}
    (hmembers : ∀ (k : Nat) (m : RecordMember), members[k]? = some m →
      ∃ slot, values.slots[index + k]? = some slot ∧ m.storage.TakesFrom (index + k) slot)
    (h : takeAll index members values = .error e) : e.IsUnknownNumber := by
  induction members generalizing index values with
  | nil => cases h
  | cons m rest ih =>
    rcases Take.bind_eq_error.1 h with h | ⟨v, values', hv, h⟩
    · obtain ⟨slot, hslot, htakes⟩ := hmembers 0 m rfl
      exact htakes values e hslot h
    · rcases Take.bind_eq_error.1 h with h | ⟨vs, values'', -, h⟩
      · refine ih (fun k m' hk ↦ ?_) h
        obtain ⟨slot, hslot, htakes⟩ := hmembers (k + 1) m' hk
        have hindex : index + (k + 1) = index + 1 + k := by omega
        rw [hindex] at hslot htakes
        refine ⟨slot, ?_, htakes⟩
        -- The slot of the first member is the only one that was emptied.
        rw [Storage.rest_of_take hv, List.getElem?_set_ne (by omega)]
        exact hslot
      · cases h

/-- **The factory of a record fails only because an enum does not declare a number**, if each of its
members may be taken from its slot. -/
theorem RecordType.isUnknownNumber_of_factory {r : RecordType} {values : FieldValues}
    {e : FactoryError}
    (hmembers : ∀ (k : Nat) (m : RecordMember), r.members[k]? = some m →
      ∃ slot, values.slots[k]? = some slot ∧ m.storage.TakesFrom k slot)
    (h : r.factory values = .error e) : e.IsUnknownNumber := by
  have h := Take.run'_eq_error.1 h
  rcases Take.bind_eq_error.1 h with h | ⟨members, rest, -, h⟩
  · exact isUnknownNumber_of_takeAll (by simpa using hmembers) h
  · split at h
    · rcases Take.bind_eq_error.1 h with h | ⟨unknown, rest', -, h⟩
      · cases h
      · cases h
    · cases h

end ProtoSchema
