import ProtoSchema.Codec.Decode
import ProtoSchema.Proofs.Result

/-!
# Drafts slot by slot

The effects of a message's records are applied to all slots at once, since setting a member of a
oneof unsets the others. Seen from a single slot, every effect is a function of that slot alone, so
the final content of a slot is a fold of its own and the slots need never be looked at together.
Where no other member of its oneof is set, that fold runs through the changes of the slot's own
field only, in the order in which they came.
-/

set_option autoImplicit false

namespace ProtoSchema

open Wire

/-! ## Changes and slots

What is done to one slot is a list of changes of its own, in between which it may be emptied by a
member of the same oneof. -/

/-- What changes of one field, in order, leave in its slot. -/
def collect (changes : List Change) : Option Value := changes.foldl (fun slot c ↦ c.on slot) none

/-- The changes that effects make at a position. -/
def changesAt (j : Nat) (effects : List Effect) : List Change :=
  effects.filterMap fun e ↦ e.change.bind fun (i, c) ↦ if i = j then some c else none

namespace Draft

/-- What an effect makes of the slot at position `j`. -/
def slotAfter (m : MessageMarshaller) (j : Nat) (slot : Option Value) (e : Effect) :
    Option Value :=
  match e.change with
  | none => slot
  | some (i, c) =>
    if i = j then c.on slot
    else
      match c with
      | .set _ => if exclude m i j then none else slot
      | _ => slot

/-! ## All slots

A draft has its slots and its retained bytes. Effects are applied to both without looking from one
slot to another, except for whether their plans name one oneof. -/

variable {m : MessageMarshaller}

/-- Two positions exclude each other when their plans name one oneof. -/
theorem exclude_eq_true {i j : Nat} :
    exclude m i j = true ↔ ∃ p q g, m.plans[i]? = some p ∧ m.plans[j]? = some q ∧
      p.field.oneof = some g ∧ q.field.oneof = some g := by
  constructor
  · intro h
    rw [exclude] at h
    split at h
    · next g g' hg hg' =>
      obtain ⟨p, hp, hpg⟩ := Option.bind_eq_some_iff.1 hg
      obtain ⟨q, hq, hqg⟩ := Option.bind_eq_some_iff.1 hg'
      rw [← eq_of_beq h] at hqg
      exact ⟨p, q, g, hp, hq, hpg, hqg⟩
    · cases h
  · rintro ⟨p, q, g, hp, hq, hpg, hqg⟩
    simp only [exclude, hp, hq, Option.bind_some, hpg, hqg, beq_self_eq_true]

theorem slotAfter_of_none {j : Nat} {slot : Option Value} {e : Effect} (h : e.change = none) :
    slotAfter m j slot e = slot := by
  rw [slotAfter, h]

theorem slotAfter_of_eq {j : Nat} {slot : Option Value} {e : Effect} {c : Change}
    (h : e.change = some (j, c)) : slotAfter m j slot e = c.on slot := by
  rw [slotAfter, h]
  exact if_pos rfl

theorem slotAfter_of_ne {i j : Nat} {slot : Option Value} {e : Effect} {c : Change}
    (h : e.change = some (i, c)) (hij : i ≠ j) :
    slotAfter m j slot e = slot ∨
      (slotAfter m j slot e = none ∧ exclude m i j = true ∧ ∃ v, c = .set v) := by
  rw [slotAfter, h]
  simp only [if_neg hij]
  cases c with
  | set v =>
    by_cases hx : exclude m i j = true
    · exact .inr ⟨if_pos hx, hx, v, rfl⟩
    · exact .inl (if_neg hx)
  | append vs => exact .inl rfl
  | insert k v => exact .inl rfl

theorem getElem?_change (slots : List (Option Value)) (i j : Nat) (c : Change) :
    (change m slots i c)[j]? = slots[j]?.map (slotAfter m j · { change := some (i, c) }) := by
  cases c with
  | set v =>
    rw [change, List.getElem?_set, List.length_mapIdx, List.getElem?_mapIdx]
    by_cases hij : i = j
    · subst hij
      by_cases hi : i < slots.length
      · simp [slotAfter, hi, Change.on]
      · simp [hi]
    · simp only [if_neg hij, slotAfter]
  | append vs =>
    rw [change, List.getElem?_modify]
    by_cases hij : i = j
    · cases hs : slots[j]? with
      | none => simp
      | some slot => simp only [hij, slotAfter, Change.on, Option.map_some, if_pos]; rfl
    · simp only [if_neg hij, slotAfter]
      rfl
  | insert k v =>
    rw [change, List.getElem?_modify]
    by_cases hij : i = j
    · cases hs : slots[j]? with
      | none => simp
      | some slot => simp only [hij, slotAfter, Change.on, Option.map_some, if_pos]; rfl
    · simp only [if_neg hij, slotAfter]
      rfl

theorem getElem?_apply (d : Draft) (e : Effect) (j : Nat) :
    (apply m d e).slots[j]? = d.slots[j]?.map (slotAfter m j · e) := by
  rw [apply]
  cases he : e.change with
  | none =>
    simp only [slotAfter_of_none he]
    rw [Option.map_id']
  | some change =>
    obtain ⟨i, c⟩ := change
    simp only [getElem?_change, slotAfter, he]

/-- Each slot goes its own way. -/
theorem getElem?_foldl (d : Draft) (effects : List Effect) (j : Nat) :
    (effects.foldl (apply m) d).slots[j]?
      = d.slots[j]?.map fun slot ↦ effects.foldl (slotAfter m j) slot := by
  induction effects generalizing d with
  | nil => simp
  | cons e rest ih =>
    rw [List.foldl_cons, ih, getElem?_apply, Option.map_map]
    rfl

theorem slots_foldl (effects : List Effect) :
    (effects.foldl (apply m) (empty m)).slots
      = m.plans.mapIdx fun j _ ↦ effects.foldl (slotAfter m j) none := by
  apply List.ext_getElem?
  intro j
  rw [getElem?_foldl, empty, List.getElem?_map, List.getElem?_mapIdx, Option.map_map]
  rfl

theorem unknown_foldl (d : Draft) (effects : List Effect) :
    (effects.foldl (apply m) d).unknown.bytes
      = d.unknown.bytes ++ effects.flatMap (·.retained) := by
  induction effects generalizing d with
  | nil => simp
  | cons e rest ih =>
    rw [List.foldl_cons, ih, apply, UnknownFields.push, List.flatMap_cons, List.append_assoc]

theorem result_finish (d : Draft) :
    (m.finish d).result = ((m.plans.zip d.slots).mapM fun e ↦ m.fill e.1 e.2) >>=
      fun values ↦ (m.layout.assemble (MessageMarshaller.valueAt (m.plans.zip values)) []
        d.unknown).mapError .factory := by
  rw [MessageMarshaller.finish, Logged.result_bind, Logged.result_ofExcept]
  congr 1
  funext values
  split <;> simp

/-- The result of decoding: the effects of all records are applied, and the draft is finished. -/
theorem result_decodeWith {reg : Registry} {nested : NestedReader} {input : Bytes} :
    (m.decodeWith reg nested input).result = (readAll (m.readRecord reg nested) input).result >>=
      fun effects ↦ (m.finish (effects.foldl (Draft.apply m) (.empty m))).result := by
  rw [MessageMarshaller.decodeWith, Logged.result_bind]

/-! ## One slot

Of all effects only those at the position of the slot change it, as long as no other member of its
oneof is set. -/

theorem changesAt_append (j : Nat) (es fs : List Effect) :
    changesAt j (es ++ fs) = changesAt j es ++ changesAt j fs := List.filterMap_append

theorem changesAt_cons_of_eq {j : Nat} {e : Effect} {c : Change} (h : e.change = some (j, c))
    (rest : List Effect) : changesAt j (e :: rest) = c :: changesAt j rest := by
  simp [changesAt, h]

theorem changesAt_cons_of_ne {j : Nat} {e : Effect} (h : ∀ c, e.change ≠ some (j, c))
    (rest : List Effect) : changesAt j (e :: rest) = changesAt j rest := by
  rw [changesAt, changesAt, List.filterMap_cons_none]
  · cases he : e.change with
    | none => rfl
    | some change =>
      obtain ⟨i, c⟩ := change
      have hij : i ≠ j := by
        rintro rfl
        exact h c he
      simp [hij]

theorem foldl_slotAfter_of_changesAt_nil {j : Nat} {effects : List Effect}
    (h : changesAt j effects = []) : effects.foldl (slotAfter m j) none = none := by
  induction effects with
  | nil => rfl
  | cons e rest ih =>
    have hne : ∀ c, e.change ≠ some (j, c) := by
      intro c hc
      rw [changesAt_cons_of_eq hc] at h
      cases h
    rw [changesAt_cons_of_ne hne] at h
    have he : slotAfter m j none e = none := by
      cases hc : e.change with
      | none => exact slotAfter_of_none hc
      | some change =>
        obtain ⟨i, c⟩ := change
        have hij : i ≠ j := by
          rintro rfl
          exact hne c hc
        exact (slotAfter_of_ne hc hij).elim id And.left
    rw [List.foldl_cons, he, ih h]

/-- A slot that no other member of its oneof empties holds what its own changes leave in it. -/
theorem foldl_slotAfter_of_exclusive {j : Nat} {effects : List Effect} (slot : Option Value)
    (h : ∀ e ∈ effects, ∀ i v, e.change = some (i, .set v) → exclude m i j = true → i = j) :
    effects.foldl (slotAfter m j) slot = (changesAt j effects).foldl (fun s c ↦ c.on s) slot := by
  induction effects generalizing slot with
  | nil => rfl
  | cons e rest ih =>
    have hrest := fun slot ↦ ih slot fun e he ↦ h e (List.mem_cons_of_mem _ he)
    rw [List.foldl_cons, hrest]
    by_cases hj : ∃ c, e.change = some (j, c)
    · obtain ⟨c, hc⟩ := hj
      rw [slotAfter_of_eq hc, changesAt_cons_of_eq hc, List.foldl_cons]
    · have hne : ∀ c, e.change ≠ some (j, c) := fun c hc ↦ hj ⟨c, hc⟩
      have he : slotAfter m j slot e = slot := by
        cases hc : e.change with
        | none => exact slotAfter_of_none hc
        | some change =>
          obtain ⟨i, c⟩ := change
          have hij : i ≠ j := by
            rintro rfl
            exact hne c hc
          refine (slotAfter_of_ne hc hij).resolve_right fun ⟨_, hx, v, hv⟩ ↦ ?_
          exact hij (h e List.mem_cons_self i v (hv ▸ hc) hx)
      rw [he, changesAt_cons_of_ne hne]

end Draft

end ProtoSchema
