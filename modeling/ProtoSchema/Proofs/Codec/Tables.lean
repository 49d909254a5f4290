import Mathlib.Data.List.Induction
import Mathlib.Logic.Function.Basic
import ProtoSchema.Codec.Tables
import ProtoSchema.Proofs.Codec.Change
import ProtoSchema.Proofs.Codec.Message
import ProtoSchema.Proofs.Types.Spreading

/-!
# The tables of a marshaller

Tables are filled one plan after the other, and what keeps them together is nothing but that
positions are counted alike everywhere. `MessageMarshaller.Fits` says that tables suit the plans and
the layout they were made from. It holds as soon as the plans have numbers of their own and lead to
the fields of the layout, each to one of them.

The slots of a layout are followed by telling for every path what the slot there is bound to, so
binding one more plan is an update of that function. So is entering a number into the hash map, and
both tables are found to hold the same positions by one argument about entering them.
-/

set_option autoImplicit false

namespace ProtoSchema

open Wire

/-! ## Entering positions under keys

A table of positions is what is left when the positions were entered one after the other, and a
later one would replace an earlier one under the same key. -/

section

variable {α κ : Type} [DecidableEq κ] {key : α → κ}

/-- A table after elements and their positions were entered, each under its key. -/
def enter (key : α → κ) (table : κ → Option Nat) (entries : List (α × Nat)) : κ → Option Nat :=
  entries.foldl (fun table e ↦ Function.update table (key e.1) (some e.2)) table

theorem enter_append_singleton (table : κ → Option Nat) (entries : List (α × Nat)) (e : α × Nat) :
    enter key table (entries ++ [e]) =
      Function.update (enter key table entries) (key e.1) (some e.2) := by
  rw [enter, enter, List.foldl_append, List.foldl_cons, List.foldl_nil]

theorem enter_zipIdx {as : List α} (hkeys : (as.map key).Nodup) {b : κ} {k : Nat} :
    enter key (fun _ ↦ none) as.zipIdx b = some k ↔ ∃ a, as[k]? = some a ∧ key a = b := by
  induction as using List.reverseRecOn generalizing k with
  | nil => simp [enter]
  | append_singleton init a ih =>
    rw [List.map_append, List.nodup_append] at hkeys
    obtain ⟨hinit, -, hnew⟩ := hkeys
    rw [List.zipIdx_append, List.zipIdx_singleton, Nat.zero_add, enter_append_singleton,
      List.getElem?_append]
    by_cases hb : b = key a
    · subst hb
      rw [Function.update_self, Option.some.injEq]
      constructor
      · rintro rfl
        exact ⟨a, by simp, rfl⟩
      · rintro ⟨a', ha', hkey⟩
        split at ha'
        · have hmem : key a ∈ init.map key := hkey ▸ List.mem_map_of_mem (List.mem_of_getElem? ha')
          exact absurd rfl (hnew _ hmem _ (by simp))
        · have hlt := (List.getElem?_eq_some_iff.1 ha').1
          rw [List.length_singleton] at hlt
          omega
    · rw [Function.update_of_ne hb, ih hinit]
      refine exists_congr fun a' ↦ and_congr_left fun hkey ↦ ?_
      split
      · rfl
      · next hk =>
        rw [List.getElem?_eq_none (Nat.le_of_not_lt hk)]
        refine iff_of_false (by simp) fun ha' ↦ hb ?_
        rw [← hkey, List.mem_singleton.1 (List.mem_of_getElem? ha')]

theorem getElem?_insertAll [BEq κ] [Hashable κ] [LawfulBEq κ] [LawfulHashable κ]
    (table : Std.HashMap κ Nat) (entries : List (α × Nat)) (b : κ) :
    (entries.foldl (fun table e ↦ table.insert (key e.1) e.2) table)[b]? =
      enter key (fun b ↦ table[b]?) entries b := by
  induction entries generalizing table with
  | nil => rfl
  | cons e rest ih =>
    have hinsert : (fun b ↦ (table.insert (key e.1) e.2)[b]?) =
        Function.update (fun b ↦ table[b]?) (key e.1) (some e.2) := by
      funext b'
      rw [Std.HashMap.getElem?_insert, Function.update_apply]
      by_cases hb : b' = key e.1
      · rw [if_pos hb, if_pos (beq_iff_eq.2 hb.symm)]
      · rw [if_neg hb, if_neg fun heq ↦ hb (eq_of_beq heq).symm]
    rw [List.foldl_cons, ih, hinsert, enter, enter, List.foldl_cons]

theorem getElem?_insert_zipIdx [BEq κ] [Hashable κ] [LawfulBEq κ] [LawfulHashable κ] {as : List α}
    (hkeys : (as.map key).Nodup) {b : κ} {k : Nat} :
    (as.zipIdx.foldl (fun table e ↦ table.insert (key e.1) e.2) (∅ : Std.HashMap κ Nat))[b]? =
      some k ↔ ∃ a, as[k]? = some a ∧ key a = b := by
  have hempty : (fun b : κ ↦ (∅ : Std.HashMap κ Nat)[b]?) = fun _ ↦ none := by
    funext b
    exact Std.HashMap.getElem?_empty
  rw [getElem?_insertAll, hempty]
  exact enter_zipIdx hkeys

end

/-! ## Slots of members

The slots that are to be bound lie in a tree. A path through it goes by the positions of members,
and each path of the layout that ends at a field leads to a slot of its own. -/

namespace Layout

mutual

/-- The paths that lead to fields, in the order in which the members are declared. -/
def fieldPaths : Layout → List (List Nat)
  | mk _ _ _ _ parts => fieldPathsFrom 0 parts

/-- The paths that lead to fields through members of which the first stands at position `index`. -/
def fieldPathsFrom (index : Nat) : List Part → List (List Nat)
  | [] => []
  | .field _ :: rest => [index] :: fieldPathsFrom (index + 1) rest
  | .flatten _ parent :: rest =>
    parent.fieldPaths.map (index :: ·) ++ fieldPathsFrom (index + 1) rest

end

end Layout

/-- The slot of a part. -/
def Part.memberSlot (bound : List Nat → Option Nat) : Part → MemberSlot
  | .field _ => .field (bound [])
  | .flatten _ parent => .flatten (parent.memberSlots bound)

/-- The paths that lead to fields behind a part. -/
def Part.fieldPaths : Part → List (List Nat)
  | .field _ => [[]]
  | .flatten _ parent => parent.fieldPaths

namespace Layout

variable {l : Layout} {bound : List Nat → Option Nat}

theorem slotsFrom_cons (index : Nat) (part : Part) (rest : List Part) :
    slotsFrom bound index (part :: rest) =
      part.memberSlot (fun path ↦ bound (index :: path)) :: slotsFrom bound (index + 1) rest := by
  cases part <;> rw [slotsFrom] <;> rfl

theorem getElem?_slotsFrom (parts : List Part) (index k : Nat) :
    (slotsFrom bound index parts)[k]? =
      parts[k]?.map (Part.memberSlot fun path ↦ bound ((index + k) :: path)) := by
  induction parts generalizing index k with
  | nil => simp [slotsFrom]
  | cons part rest ih =>
    rw [slotsFrom_cons]
    cases k with
    | zero => rfl
    | succ k => rw [List.getElem?_cons_succ, List.getElem?_cons_succ, ih, Nat.add_right_comm,
        Nat.add_assoc]

theorem getElem?_memberSlots (l : Layout) (k : Nat) :
    (l.memberSlots bound)[k]? = l.parts[k]?.map (Part.memberSlot fun path ↦ bound (k :: path)) := by
  cases l with
  | mk typePath names factory unknown parts => rw [memberSlots, getElem?_slotsFrom, Nat.zero_add,
      Layout.parts]

theorem at?_memberSlots (l : Layout) (path : List Nat) :
    MemberSlot.at? (l.memberSlots bound) path =
      if l.hasField path then some (bound path) else none := by
  induction path generalizing l bound with
  | nil => rfl
  | cons k rest ih =>
    rw [MemberSlot.at?, getElem?_memberSlots, hasField]
    cases l.parts[k]? with
    | none => rfl
    | some part =>
      cases part with
      | field getter =>
        cases rest <;> rfl
      | flatten getter parent => exact ih parent

theorem set_memberSlots {k : Nat} {part : Part} (hk : l.parts[k]? = some part) (rest : List Nat)
    (v : Option Nat) :
    (l.memberSlots bound).set k
        (part.memberSlot (Function.update (fun path ↦ bound (k :: path)) rest v)) =
      l.memberSlots (Function.update bound (k :: rest) v) := by
  apply List.ext_getElem?
  intro j
  rw [List.getElem?_set, getElem?_memberSlots, getElem?_memberSlots]
  by_cases hj : k = j
  · subst hj
    have hlt : k < (l.memberSlots bound).length := by
      have hsome : ((l.memberSlots bound)[k]?).isSome := by
        rw [getElem?_memberSlots, hk]
        rfl
      simpa using hsome
    rw [if_pos rfl, if_pos hlt, hk, Option.map_some]
    congr 2
    funext path
    by_cases hpath : path = rest
    · rw [hpath, Function.update_self, Function.update_self]
    · rw [Function.update_of_ne hpath, Function.update_of_ne]
      simpa using hpath
  · rw [if_neg hj]
    congr 2
    funext path
    rw [Function.update_of_ne]
    intro heq
    exact hj (List.cons.inj heq).1.symm

theorem bind?_memberSlots {path : List Nat} (h : l.hasField path = true) (k : Nat) :
    MemberSlot.bind? k (l.memberSlots bound) path =
      some (l.memberSlots (Function.update bound path (some k))) := by
  induction path generalizing l bound with
  | nil => cases h
  | cons index rest ih =>
    obtain ⟨part, hpart, hfield⟩ := hasField_cons.1 h
    rw [MemberSlot.bind?, getElem?_memberSlots, hpart, ← set_memberSlots hpart]
    cases part with
    | field getter =>
      obtain rfl := List.isEmpty_iff.1 hfield
      simp [Part.memberSlot]
    | flatten getter parent =>
      simp only [Option.map_some, Part.memberSlot, ih hfield]

theorem bindAll_memberSlots {plans : List (Plan × Nat)}
    (h : ∀ e ∈ plans, l.hasField e.1.path = true) :
    plans.foldlM (fun slots e ↦ MemberSlot.bind? e.2 slots e.1.path) (l.memberSlots bound) =
      some (l.memberSlots (enter Plan.path bound plans)) := by
  induction plans generalizing bound with
  | nil => rfl
  | cons e rest ih =>
    rw [List.forall_mem_cons] at h
    rw [List.foldlM_cons, bind?_memberSlots h.1]
    exact ih h.2

theorem fieldPathsFrom_cons (index : Nat) (part : Part) (rest : List Part) :
    fieldPathsFrom index (part :: rest) =
      part.fieldPaths.map (index :: ·) ++ fieldPathsFrom (index + 1) rest := by
  cases part <;> rw [fieldPathsFrom] <;> rfl

theorem mem_fieldPathsFrom {parts : List Part} {index : Nat} {path : List Nat} :
    path ∈ fieldPathsFrom index parts ↔ ∃ (k : Nat) (part : Part) (rest : List Nat),
      parts[k]? = some part ∧ rest ∈ part.fieldPaths ∧ path = (index + k) :: rest := by
  induction parts generalizing index with
  | nil => simp [fieldPathsFrom]
  | cons part parts ih =>
    rw [fieldPathsFrom_cons, List.mem_append, List.mem_map, ih]
    constructor
    · rintro (⟨rest, hrest, rfl⟩ | ⟨k, part', rest, hk, hrest, rfl⟩)
      · exact ⟨0, part, rest, rfl, hrest, rfl⟩
      · exact ⟨k + 1, part', rest, hk, hrest, by rw [Nat.add_right_comm, Nat.add_assoc]⟩
    · rintro ⟨k, part', rest, hk, hrest, rfl⟩
      cases k with
      | zero =>
        cases hk
        exact .inl ⟨rest, hrest, rfl⟩
      | succ k => exact .inr ⟨k, part', rest, hk, hrest, by rw [Nat.add_right_comm, Nat.add_assoc]⟩

theorem mem_fieldPaths {path : List Nat} : path ∈ l.fieldPaths ↔ l.hasField path = true := by
  induction path generalizing l with
  | nil =>
    cases l with
    | mk typePath names factory unknown parts =>
      rw [fieldPaths, mem_fieldPathsFrom]
      simp [hasField]
  | cons k rest ih =>
    rw [hasField_cons]
    cases l with
    | mk typePath names factory unknown parts =>
      rw [fieldPaths, mem_fieldPathsFrom]
      simp only [Nat.zero_add, List.cons.injEq, Layout.parts]
      constructor
      · rintro ⟨_, part, _, hk, hrest, rfl, rfl⟩
        refine ⟨part, hk, ?_⟩
        cases part with
        | field getter => simpa [Part.fieldPaths, Part.hasField] using hrest
        | flatten getter parent => exact ih.1 hrest
      · rintro ⟨part, hk, hrest⟩
        refine ⟨k, part, rest, hk, ?_, rfl, rfl⟩
        cases part with
        | field getter => simpa [Part.fieldPaths, Part.hasField] using hrest
        | flatten getter parent => exact ih.2 hrest

end Layout

/-! ## Tables that fit

Slots and numbers are entered plan by plan, and the members of the oneofs are looked up by their
numbers afterwards. That there are tables at all needs a slot for each plan; that they are right
needs different numbers and different paths. -/

namespace MessageMarshaller

variable {m : MessageMarshaller} {t : Tables}

/-- Tables fit the plans and the layout that they are made from. -/
structure Fits (m : MessageMarshaller) (t : Tables) : Prop where
  /-- There is a slot for each field of the layout, -/
  slots : ∀ path, (MemberSlot.at? t.slots path).isSome = m.layout.hasField path
  /-- which is bound to a plan, -/
  bound : ∀ path o, MemberSlot.at? t.slots path = some o → ∃ k < m.plans.length, o = some k
  /-- to another one than any other slot, -/
  distinct : ∀ path path' k, MemberSlot.at? t.slots path = some (some k) →
    MemberSlot.at? t.slots path' = some (some k) → path = path'
  /-- and every plan is bound where its path leads. -/
  leads : ∀ (k : Nat) (p : Plan), m.plans[k]? = some p →
    MemberSlot.at? t.slots p.path = some (some k)
  /-- A number leads to its own plan, and other numbers lead nowhere. -/
  numbers : ∀ n k, t.byNumber[n]? = some k ↔
    ∃ p : Plan, m.plans[k]? = some p ∧ p.field.number = n
  /-- A plan of a oneof has the position of that oneof, and the plans of the oneof are those that
  are listed at this position, each once. -/
  oneofs : ∀ p ∈ m.plans, ∀ g, p.field.oneof = some g → ∃ i o members,
    m.oneofIndex? p = some i ∧ m.descriptor.oneofs[i]? = some o ∧ o.name = g ∧
    t.oneofMembers[i]? = some members ∧ members.Nodup ∧
    ∀ j, j ∈ members ↔ ∃ q : Plan, m.plans[j]? = some q ∧ q.field.oneof = some g

/-- The plans are those of the fields of the layout and of the members of the oneofs. -/
structure Complete (m : MessageMarshaller) : Prop where
  numbers : m.HasDistinctNumbers
  distinct : (m.plans.map (·.path)).Nodup
  paths : m.plans.map (·.path) = m.layout.fieldPaths
  named : ∀ p ∈ m.plans, ∀ g, p.field.oneof = some g → ∃ o ∈ m.descriptor.oneofs, o.name = g
  oneofs : ∀ o ∈ m.descriptor.oneofs,
    o.numbers = (m.plans.filter (·.field.oneof == some o.name)).map (·.field.number)

theorem Complete.hasField (h : m.Complete) {p : Plan} (hp : p ∈ m.plans) :
    m.layout.hasField p.path = true := by
  rw [← Layout.mem_fieldPaths, ← h.paths]
  exact List.mem_map_of_mem hp

theorem Complete.bindAll (h : m.Complete) :
    m.plans.zipIdx.foldlM (fun slots e ↦ MemberSlot.bind? e.2 slots e.1.path)
      (m.layout.memberSlots fun _ ↦ none) =
    some (m.layout.memberSlots (enter Plan.path (fun _ ↦ none) m.plans.zipIdx)) :=
  Layout.bindAll_memberSlots fun _ he ↦ h.hasField (List.fst_mem_of_mem_zipIdx he)

theorem Complete.slots_eq (h : m.Complete) (ht : m.tables? = some t) :
    t.slots = m.layout.memberSlots (enter Plan.path (fun _ ↦ none) m.plans.zipIdx) := by
  rw [tables?, h.bindAll] at ht
  rw [← Option.some.inj ht]

theorem Complete.exists_tables (h : m.Complete) : ∃ t, m.tables? = some t ∧
    (∀ path, (MemberSlot.at? t.slots path).isSome = m.layout.hasField path) ∧
    (∀ k (p : Plan), m.plans[k]? = some p → MemberSlot.at? t.slots p.path = some (some k)) ∧
    (∀ n k, t.byNumber[n]? = some k ↔ ∃ p : Plan, m.plans[k]? = some p ∧ p.field.number = n) ∧
    t.oneofMembers = m.descriptor.oneofs.map fun o ↦ o.numbers.filterMap (t.byNumber[·]?) := by
  refine ⟨_, by rw [tables?, h.bindAll]; rfl, fun path ↦ ?_, fun k p hp ↦ ?_, fun n k ↦ ?_, rfl⟩
  · rw [Layout.at?_memberSlots]
    cases m.layout.hasField path <;> rfl
  · rw [Layout.at?_memberSlots, if_pos (h.hasField (List.mem_of_getElem? hp)),
      (enter_zipIdx h.distinct).2 ⟨p, hp, rfl⟩]
  · exact getElem?_insert_zipIdx h.numbers

theorem Complete.oneofMembers (h : m.Complete)
    (hnumbers : ∀ n k, t.byNumber[n]? = some k ↔
      ∃ p : Plan, m.plans[k]? = some p ∧ p.field.number = n)
    {p : Plan} (hp : p ∈ m.plans) {g : String} (hg : p.field.oneof = some g) : ∃ i o,
      m.oneofIndex? p = some i ∧ m.descriptor.oneofs[i]? = some o ∧ o.name = g ∧
      (o.numbers.filterMap (t.byNumber[·]?)).Nodup ∧
      ∀ j, j ∈ o.numbers.filterMap (t.byNumber[·]?) ↔
        ∃ q : Plan, m.plans[j]? = some q ∧ q.field.oneof = some g := by
  obtain ⟨i, hi⟩ : ∃ i, m.descriptor.oneofs.findIdx? (·.name == g) = some i := by
    obtain ⟨o, ho, hname⟩ := h.named p hp g hg
    rw [← Option.isSome_iff_exists, List.findIdx?_isSome, List.any_eq_true]
    exact ⟨o, ho, beq_iff_eq.2 hname⟩
  obtain ⟨hlt, hname, -⟩ := List.findIdx?_eq_some_iff_getElem.1 hi
  have hlisted := h.oneofs _ (List.getElem_mem hlt)
  rw [eq_of_beq hname] at hlisted
  refine ⟨i, _, by rw [oneofIndex?, hg, Option.bind_some, hi], List.getElem?_eq_getElem hlt,
    eq_of_beq hname, ?_, fun j ↦ ?_⟩
  · -- Different numbers lead to different plans.
    rw [hlisted]
    refine List.Nodup.filterMap (fun n n' k hk hk' ↦ ?_)
      (h.numbers.sublist (List.filter_sublist.map _))
    obtain ⟨q, hq, rfl⟩ := (hnumbers n k).1 hk
    obtain ⟨q', hq', rfl⟩ := (hnumbers n' k).1 hk'
    rw [Option.some.inj (hq.symm.trans hq')]
  · rw [hlisted, List.mem_filterMap]
    constructor
    · rintro ⟨n, hn, hj⟩
      obtain ⟨q, hq, rfl⟩ := List.mem_map.1 hn
      obtain ⟨hq, hqg⟩ := List.mem_filter.1 hq
      obtain ⟨q', hq', hnumber⟩ := (hnumbers _ j).1 hj
      obtain rfl := h.numbers.eq_of_number hq (List.mem_of_getElem? hq') hnumber.symm
      exact ⟨q, hq', eq_of_beq hqg⟩
    · rintro ⟨q, hq, hqg⟩
      refine ⟨q.field.number, ?_, (hnumbers _ j).2 ⟨q, hq, rfl⟩⟩
      exact List.mem_map_of_mem (List.mem_filter.2 ⟨List.mem_of_getElem? hq, beq_iff_eq.2 hqg⟩)

/-- **Tables that fit** can be made if there is a plan for each field of the layout, and no two of
them share a number. -/
theorem Complete.exists_fits (h : m.Complete) : ∃ t, m.tables? = some t ∧ m.Fits t := by
  obtain ⟨t, ht, hslots, hleads, hnumbers, hmembers⟩ := h.exists_tables
  -- The slot at a path is the one that the plan for the path is bound to.
  have hplan : ∀ path o, MemberSlot.at? t.slots path = some o →
      ∃ k p, m.plans[k]? = some p ∧ p.path = path ∧ o = some k := by
    intro path o ho
    have hfield := hslots path
    rw [ho, Option.isSome_some, eq_comm, ← Layout.mem_fieldPaths, ← h.paths] at hfield
    obtain ⟨p, hp, rfl⟩ := List.mem_map.1 hfield
    obtain ⟨k, hk⟩ := List.mem_iff_getElem?.1 hp
    rw [hleads k p hk] at ho
    exact ⟨k, p, hk, rfl, (Option.some.inj ho).symm⟩
  refine ⟨t, ht, ?_⟩
  exact {
    slots := hslots
    leads := hleads
    numbers := hnumbers
    bound := by
      intro path o ho
      obtain ⟨k, p, hk, -, rfl⟩ := hplan path o ho
      exact ⟨k, (List.getElem?_eq_some_iff.1 hk).1, rfl⟩
    distinct := by
      intro path path' k hk hk'
      obtain ⟨_, p, hp, rfl, heq⟩ := hplan path _ hk
      obtain ⟨_, p', hp', rfl, heq'⟩ := hplan path' _ hk'
      cases heq
      cases heq'
      rw [Option.some.inj (hp.symm.trans hp')]
    oneofs := by
      intro p hp g hg
      obtain ⟨i, o, hi, ho, hname, hnodup, hall⟩ := h.oneofMembers hnumbers hp hg
      refine ⟨i, o, _, hi, ho, hname, ?_, hnodup, hall⟩
      rw [hmembers, List.getElem?_map, ho, Option.map_some] }

end MessageMarshaller

end ProtoSchema
