import Mathlib.Data.List.Nodup
import ProtoSchema.Codec.Decode
import ProtoSchema.Proofs.Codec.Fit
import ProtoSchema.Proofs.Result

/-!
# Instances that show what their factories were handed

A factory is a function that the described type brings along, and nothing is known about it but
what is assumed. `Layout.Stores` is the assumption that round trips rest on: each factory of a
layout accepts the slots that decoding hands it, and the getters beside it show what stood in these
slots. It speaks of one factory at a time. That a field inside a supertype of a supertype is read
back at its path is proved from it, by induction on the layout.
-/

set_option autoImplicit false

namespace ProtoSchema

open Wire

/-- What a member shows of the slot that its instance was built from: a field some value that is
accepted at its path, a flattened member the very instance in the slot. -/
def Part.Shown (shows : Value → Prop) (slot : Option Value) (i : Instance) : Part → Prop
  | .field getter => ∃ w, getter.read i = some w ∧ shows w
  | .flatten getter _ => getter.read i = slot

/-- What a member puts into its slot, where `hand` gives the value of the field at a path: a field
the value at its own path, a flattened member the instance that is built of the fields below it. -/
def Part.Fills (hand : List Nat → Option Value) (path : List Nat) (slot : Option Value) :
    Part → Prop
  | .field _ => slot = hand path
  | .flatten _ parent => ∃ i, parent.assemble hand path .empty = .ok i ∧ slot = some (.message i)

namespace Layout

mutual

/-- The factories of a layout store what they are handed, where `hand` gives the value of the field
at a path and `shows` says which values its getter may then return. -/
def Stores (hand : List Nat → Option Value) (shows : List Nat → Value → Prop) (base : List Nat)
    (unknown : UnknownFields) : Layout → Prop
  | mk typePath names factory _ parts =>
    PartsStore hand shows base 0 parts ∧
      ∀ slots, assembleParts hand base 0 parts = .ok slots →
        ∃ i, factory ⟨typePath, names, slots, unknown⟩ = .ok i ∧
          ∀ (k : Nat) (part : Part) (slot : Option Value), parts[k]? = some part →
            slots[k]? = some slot → part.Shown (shows (base ++ [k])) slot i

/-- The factories of flattened members store what they are handed. -/
def PartsStore (hand : List Nat → Option Value) (shows : List Nat → Value → Prop)
    (base : List Nat) (index : Nat) : List Part → Prop
  | [] => True
  | .field _ :: rest => PartsStore hand shows base (index + 1) rest
  | .flatten _ parent :: rest =>
    Stores hand shows (base ++ [index]) .empty parent ∧
      PartsStore hand shows base (index + 1) rest

end

/-- Every field of the layout is read as `shows` says. -/
def Reads (l : Layout) (shows : List Nat → Value → Prop) (base : List Nat) (i : Instance) : Prop :=
  ∀ path, l.hasField path = true → ∃ w, l.get? i path = some w ∧ shows (base ++ path) w

/-! ## Parts and slots

A layout is assembled part by part, from the inside out. What is known of the result is known of
each slot: it holds what was handed over for the path of a field, or the instance that was built
below. The induction is on the layout and on the list of its parts at once. -/

variable {hand : List Nat → Option Value} {shows : List Nat → Value → Prop}

theorem assemble_eq (l : Layout) (base : List Nat) (unknown : UnknownFields) :
    l.assemble hand base unknown = assembleParts hand base 0 l.parts >>= fun slots ↦
      l.factory ⟨l.typePath, l.names, slots, unknown⟩ := by
  cases l
  rw [assemble]
  rfl

theorem factory_of_assemble {l : Layout} {base : List Nat} {unknown : UnknownFields} {i : Instance}
    (h : l.assemble hand base unknown = .ok i) :
    ∃ slots, assembleParts hand base 0 l.parts = .ok slots ∧
      l.factory ⟨l.typePath, l.names, slots, unknown⟩ = .ok i :=
  bind_eq_ok.1 (l.assemble_eq base unknown ▸ h)

theorem fills_of_assembleParts {base : List Nat} {index : Nat} {parts : List Part}
    {slots : List (Option Value)} (h : assembleParts hand base index parts = .ok slots) :
    slots.length = parts.length ∧ ∀ (k : Nat) (part : Part), parts[k]? = some part →
      ∃ slot, slots[k]? = some slot ∧ part.Fills hand (base ++ [index + k]) slot := by
  induction parts generalizing index slots with
  | nil =>
    rw [assembleParts] at h
    cases h
    exact ⟨rfl, fun k part hk ↦ by cases hk⟩
  | cons part rest ih =>
    -- Whatever the part is, its slot stands before those of the rest.
    obtain ⟨slot, slots, hslot, hslots, rfl⟩ : ∃ slot ss, part.Fills hand (base ++ [index]) slot ∧
        assembleParts hand base (index + 1) rest = .ok ss ∧ slots = slot :: ss := by
      cases part with
      | field getter =>
        rw [assembleParts] at h
        obtain ⟨ss, hss, h⟩ := bind_eq_ok.1 h
        exact ⟨_, ss, rfl, hss, (Except.ok.inj h).symm⟩
      | flatten getter parent =>
        rw [assembleParts] at h
        obtain ⟨i, hi, h⟩ := bind_eq_ok.1 h
        obtain ⟨ss, hss, h⟩ := bind_eq_ok.1 h
        exact ⟨_, ss, ⟨i, hi, rfl⟩, hss, (Except.ok.inj h).symm⟩
    obtain ⟨hlen, hrest⟩ := ih hslots
    refine ⟨by rw [List.length_cons, List.length_cons, hlen], fun k part' hk ↦ ?_⟩
    cases k with
    | zero =>
      cases hk
      exact ⟨slot, rfl, hslot⟩
    | succ k =>
      rw [show index + (k + 1) = index + 1 + k by omega]
      exact hrest k part' hk

theorem getElem?_of_assembleParts {base : List Nat} {parts : List Part}
    {slots : List (Option Value)} (h : assembleParts hand base 0 parts = .ok slots) {k : Nat}
    {getter : Getter} (hk : parts[k]? = some (.field getter)) :
    slots[k]? = some (hand (base ++ [k])) := by
  obtain ⟨slot, hslot, hfill⟩ := (fills_of_assembleParts h).2 k _ hk
  rw [Nat.zero_add] at hfill
  rw [hslot]
  exact congrArg some hfill

mutual

theorem exists_assemble {base : List Nat} {unknown : UnknownFields} (l : Layout)
    (h : l.Stores hand shows base unknown) :
    ∃ i, l.assemble hand base unknown = .ok i ∧ l.Reads shows base i := by
  match l, h with
  | mk typePath names factory lend parts, h =>
    rw [Stores] at h
    obtain ⟨slots, hslots, hlen, hparents⟩ := exists_assembleParts parts h.1
    obtain ⟨i, hi, hshown⟩ := h.2 slots hslots
    refine ⟨i, by rw [assemble, hslots, ok_bind, hi], ?_⟩
    intro path hpath
    match path, hpath with
    | k :: rest, hpath =>
      rw [hasField, Layout.parts] at hpath
      cases hk : parts[k]? with
      | none =>
        rw [hk] at hpath
        cases hpath
      | some part =>
        rw [hk] at hpath
        have hlt : k < slots.length := hlen ▸ (List.getElem?_eq_some_iff.1 hk).1
        have hs := hshown k part slots[k] hk (List.getElem?_eq_getElem hlt)
        cases part with
        | field getter =>
          obtain ⟨w, hw, hsw⟩ := hs
          have hrest : rest = [] := List.isEmpty_iff.1 hpath
          subst hrest
          exact ⟨w, by rw [get?, Layout.parts, hk]; exact hw, hsw⟩
        | flatten getter parent =>
          obtain ⟨y, hy, hreads⟩ := hparents k getter parent hk
          obtain ⟨w, hw, hsw⟩ := hreads rest hpath
          have hg : getter.read i = some (.message y) := by
            rw [List.getElem?_eq_getElem hlt] at hy
            rw [← Option.some.inj hy]
            exact hs
          refine ⟨w, ?_, ?_⟩
          · rw [get?, Layout.parts, hk]
            simp only [hg, hw]
          · rwa [Nat.zero_add, List.append_assoc, List.singleton_append] at hsw

/-- The slots of members are assembled, and those of flattened members hold instances whose fields
are read at their paths. -/
theorem exists_assembleParts {base : List Nat} {index : Nat} (parts : List Part)
    (h : PartsStore hand shows base index parts) :
    ∃ slots, assembleParts hand base index parts = .ok slots ∧ slots.length = parts.length ∧
      ∀ (k : Nat) (getter : Getter) (parent : Layout), parts[k]? = some (.flatten getter parent) →
        ∃ y, slots[k]? = some (some (.message y)) ∧
          parent.Reads shows (base ++ [index + k]) y := by
  match parts, h with
  | [], _ => exact ⟨[], by rw [assembleParts], rfl, fun k getter parent hk ↦ by cases hk⟩
  | .field getter :: rest, h =>
    rw [PartsStore] at h
    obtain ⟨slots, hslots, hlen, hparents⟩ := exists_assembleParts rest h
    refine ⟨hand (base ++ [index]) :: slots, ?_, ?_, ?_⟩
    · rw [assembleParts, hslots]
      rfl
    · rw [List.length_cons, List.length_cons, hlen]
    · intro k getter' parent hk
      cases k with
      | zero => cases hk
      | succ k =>
        rw [show index + (k + 1) = index + 1 + k by omega]
        exact hparents k getter' parent hk
  | .flatten getter parent :: rest, h =>
    rw [PartsStore] at h
    obtain ⟨y, hy, hreads⟩ := exists_assemble parent h.1
    obtain ⟨slots, hslots, hlen, hparents⟩ := exists_assembleParts rest h.2
    refine ⟨some (.message y) :: slots, ?_, ?_, ?_⟩
    · rw [assembleParts, hy, hslots]
      rfl
    · rw [List.length_cons, List.length_cons, hlen]
    · intro k getter' parent' hk
      cases k with
      | zero =>
        cases hk
        exact ⟨y, rfl, hreads⟩
      | succ k =>
        rw [show index + (k + 1) = index + 1 + k by omega]
        exact hparents k getter' parent' hk

end

end Layout

/-! ## Messages

For a message the values are those of its plans. With a path for each plan, the value at the path of
a plan is the value of that plan. -/

/-- What a getter may return for the slot that its instance was built from. An empty slot of a field
that tells unset from default is unset, any other empty slot counts as the zero of its type. -/
def Plan.Shows (p : Plan) (slot : Option Value) (w : Value) : Prop :=
  match slot with
  | some v => w = v
  | none =>
    if p.field.presence then w = .absent else ∃ s, p.element = .scalar s ∧ w = s.zero

namespace MessageMarshaller

/-- The factories of a message type and of its flattened supertypes store the values of `hand` and
the unknown fields. -/
structure Stores (m : MessageMarshaller) (hand : List Nat → Option Value)
    (unknown : UnknownFields) : Prop where
  members : m.layout.Stores hand (fun path w ↦ ∀ p ∈ m.plans, p.path = path → p.Shows (hand path) w)
    [] unknown
  whole : ∀ i, m.layout.assemble hand [] unknown = .ok i → i.type = m.type ∧ m.retained i = unknown

variable {m : MessageMarshaller}

/-- Every plan leads to a field of the layout. -/
def HasPaths (m : MessageMarshaller) : Prop := ∀ p ∈ m.plans, m.layout.hasField p.path = true

/-- An instance whose factories store what they are handed shows it at the path of each plan. -/
theorem Stores.exists_assemble {hand : List Nat → Option Value} {unknown : UnknownFields}
    (h : m.Stores hand unknown) (hpaths : m.HasPaths) :
    ∃ i, m.layout.assemble hand [] unknown = .ok i ∧ i.type = m.type ∧ m.retained i = unknown ∧
      ∀ p ∈ m.plans, ∃ w, m.layout.get? i p.path = some w ∧ p.Shows (hand p.path) w := by
  obtain ⟨i, hi, hreads⟩ := Layout.exists_assemble m.layout h.members
  refine ⟨i, hi, (h.whole i hi).1, (h.whole i hi).2, fun p hp ↦ ?_⟩
  obtain ⟨w, hw, hshows⟩ := hreads p.path (hpaths p hp)
  exact ⟨w, hw, hshows p hp rfl⟩

theorem valueAt_of_mem {filled : List (Plan × Option Value)}
    (hpaths : (filled.map (·.1.path)).Nodup) {p : Plan} {o : Option Value}
    (h : (p, o) ∈ filled) : valueAt filled p.path = o := by
  have hfind : filled.reverse.find? (fun e ↦ e.1.path == p.path) = some (p, o) := by
    cases hf : filled.reverse.find? (fun e ↦ e.1.path == p.path) with
    | none =>
      have := List.find?_eq_none.1 hf (p, o) (List.mem_reverse.2 h)
      simp at this
    | some e =>
      have hmem := List.mem_reverse.1 (List.mem_of_find?_eq_some hf)
      have hpath : e.1.path = p.path := by simpa using List.find?_some hf
      rw [List.inj_on_of_nodup_map hpaths hmem h hpath]
  rw [valueAt, hfind, Option.bind_some]

/-- With distinct paths and a value for each plan, the value at a plan's path is found at the plan's
position. -/
theorem valueAt_zip {plans : List Plan} {values : List (Option Value)}
    (hpaths : (plans.map (·.path)).Nodup) (hlen : plans.length = values.length) {k : Nat} {p : Plan}
    {o : Option Value} (hp : plans[k]? = some p) (ho : values[k]? = some o) :
    valueAt (plans.zip values) p.path = o := by
  refine valueAt_of_mem ?_ (List.mem_of_getElem? (List.getElem?_zip_eq_some.2 ⟨hp, ho⟩))
  have hfst := congrArg (List.map (·.path)) (List.map_fst_zip (Nat.le_of_eq hlen))
  rw [List.map_map] at hfst
  exact hfst ▸ hpaths

end MessageMarshaller

end ProtoSchema
