import ProtoSchema.Codec.Layout
import ProtoSchema.Proofs.Result

/-!
# Supertypes written out

A type with flattened supertypes may be declared without them: the members of a supertype are put in
the place of the member that flattens it, again and again until only fields are left, and each of
them is read through the supertypes that it came from. Such a declaration has a field for each leaf
of the type, and its getter reads what the layout of the type reads at the path of the leaf. The
path leads to a field of the layout, and if all leaves are fields there is a layout.
-/

set_option autoImplicit false

namespace ProtoSchema

open Wire

/-- Reads a member of the instance that another getter reads. -/
def Getter.through (outer inner : Getter) : Getter where
  read i :=
    match outer.read i with
    | some (.message parent) => inner.read parent
    | _ => none
  depth_lt i v h := by
    split at h
    · next parent hparent =>
      have h₁ := outer.depth_lt i _ hparent
      have h₂ := inner.depth_lt parent v h
      rw [Value.depth] at h₁
      omega
    · cases h

mutual

/-- The members that stand in the place of a followed one: a field itself, a flattened member the
members of its supertype. -/
def Inlined.spread : Inlined → List Member
  | .field _ member => [member]
  | .parent member _ _ members =>
    (Inlined.spreadAll members).map fun m ↦ { m with getter := member.getter.through m.getter }
  | .invalid _ | .cycle _ => []

/-- The members that stand in the places of followed ones. -/
def Inlined.spreadAll : List Inlined → List Member
  | [] => []
  | m :: rest => m.spread ++ Inlined.spreadAll rest

end

/-- The message without supertypes, whose members it declares itself. It needs a factory that takes
all of them. -/
def MessageInfo.spread (message : MessageInfo) (env : Environment) (info : TypeInfo)
    (factory : Factory) : MessageInfo where
  members := Inlined.spreadAll (info.inline env message)
  factory
  unknown := message.unknown

/-! ## Reading through supertypes

A path goes through the parts of a layout as getters go through instances. Both were made of the
same member, one step at a time. -/

/-- Reads the value at a path behind a part. -/
def Part.get? (i : Instance) (path : List Nat) : Part → Option Value
  | .field getter => getter.read i
  | .flatten getter parent =>
    match getter.read i with
    | some (.message inner) => parent.get? inner path
    | _ => none

/-- Whether a path behind a part leads to a field. -/
def Part.hasField (path : List Nat) : Part → Bool
  | .field _ => path.isEmpty
  | .flatten _ parent => parent.hasField path

theorem Layout.get?_cons (l : Layout) (i : Instance) (k : Nat) (path : List Nat) :
    l.get? i (k :: path) = l.parts[k]?.bind (Part.get? i path) := by
  rw [get?]
  cases l.parts[k]? with
  | none => rfl
  | some part => cases part <;> rfl

theorem Layout.hasField_cons {l : Layout} {k : Nat} {path : List Nat} :
    l.hasField (k :: path) = true ↔
      ∃ part, l.parts[k]? = some part ∧ part.hasField path = true := by
  rw [hasField]
  cases hk : l.parts[k]? with
  | none => simp
  | some part => cases part <;> simp [Part.hasField]

/-- A member is declared like the field of a leaf, to which a path behind a part leads, and reads
what the part reads there. -/
def Leaf.SpreadsTo (base : List Nat) (part : Part) (leaf : Leaf) (member' : Member) : Prop :=
  ∃ path owner member, leaf = .field (base ++ path) owner member ∧
    member' = { member with getter := member'.getter } ∧ part.hasField path = true ∧
      ∀ i, member'.getter.read i = part.get? i path

mutual

theorem Inlined.leaves_spreadsTo {typePath : String} {part : Part} (i : Inlined) (base : List Nat)
    (h : Layout.partOf typePath i = .ok part) :
    List.Forall₂ (Leaf.SpreadsTo base part) (i.leaves base) i.spread := by
  match i with
  | .field owner member =>
    rw [Layout.partOf] at h
    cases h
    rw [leaves, spread]
    exact .cons ⟨[], owner, member, by rw [List.append_nil], rfl, rfl, fun _ ↦ rfl⟩ .nil
  | .parent member info message members =>
    rw [Layout.partOf] at h
    obtain ⟨parts, hparts, h⟩ := bind_eq_ok.1 h
    cases h
    rw [leaves, spread, List.forall₂_map_right_iff]
    refine (Inlined.leavesFrom_spreadsTo members base 0 hparts).imp fun leaf m hspreads ↦ ?_
    obtain ⟨k, part, hk, path, owner, member', hleaf, hm, hfield, hread⟩ := hspreads
    refine ⟨k :: path, owner, member', ?_, by rw [hm], Layout.hasField_cons.2 ⟨part, hk, hfield⟩,
      fun x ↦ ?_⟩
    · rw [hleaf, Nat.zero_add, List.append_assoc, List.singleton_append]
    · -- Both read what the flattened member reads first.
      have hbehind : ∀ inner, m.getter.read inner =
          (Layout.mk info.path (message.members.map (·.name)) message.factory message.unknown
            parts).get? inner (k :: path) := by
        intro inner
        rw [Layout.get?_cons, Layout.parts, hk, Option.bind_some, hread]
      change (match member.getter.read x with
        | some (.message inner) => m.getter.read inner
        | _ => none) = _
      simp only [hbehind]
      rfl
  | .invalid member | .cycle member =>
    rw [Layout.partOf] at h
    cases h

theorem Inlined.leavesFrom_spreadsTo {typePath : String} {parts : List Part}
    (members : List Inlined) (base : List Nat) (index : Nat)
    (h : Layout.partsOf typePath members = .ok parts) :
    List.Forall₂ (fun leaf member' ↦ ∃ (k : Nat) (part : Part), parts[k]? = some part ∧
        leaf.SpreadsTo (base ++ [index + k]) part member')
      (Inlined.leavesFrom base index members) (Inlined.spreadAll members) := by
  match members with
  | [] =>
    rw [leavesFrom, spreadAll]
    exact .nil
  | i :: rest =>
    rw [Layout.partsOf] at h
    obtain ⟨part, hpart, h⟩ := bind_eq_ok.1 h
    obtain ⟨parts, hparts, h⟩ := bind_eq_ok.1 h
    cases h
    rw [leavesFrom, spreadAll]
    refine List.rel_append ?_ ?_
    · exact (Inlined.leaves_spreadsTo i (base ++ [index]) hpart).imp
        fun leaf m hspreads ↦ ⟨0, part, rfl, hspreads⟩
    · refine (Inlined.leavesFrom_spreadsTo rest base (index + 1) hparts).imp
        fun leaf m hspreads ↦ ?_
      obtain ⟨k, part', hk, hspreads⟩ := hspreads
      refine ⟨k + 1, part', hk, ?_⟩
      rwa [Nat.add_right_comm, Nat.add_assoc] at hspreads

end

/-- The members of a type that is spread are the leaves of the type, in order, and each reads what
the layout of the type reads at the path of its leaf. -/
theorem MessageInfo.leaves_spreadsTo {env : Environment} {info : TypeInfo} {message : MessageInfo}
    {l : Layout} (h : Layout.ofInfo env info message = .ok l) (factory : Factory) :
    List.Forall₂ (fun leaf member' ↦ ∃ path owner member, leaf = .field path owner member ∧
        member' = { member with getter := member'.getter } ∧ l.hasField path = true ∧
        ∀ i, member'.getter.read i = l.get? i path)
      (info.leaves env message) (message.spread env info factory).members := by
  obtain ⟨parts, hparts, h⟩ := bind_eq_ok.1 h
  cases h
  refine (Inlined.leavesFrom_spreadsTo _ [] 0 hparts).imp fun leaf member' hspreads ↦ ?_
  obtain ⟨k, part, hk, path, owner, member, hleaf, hmember, hfield, hread⟩ := hspreads
  refine ⟨k :: path, owner, member, ?_, hmember, Layout.hasField_cons.2 ⟨part, hk, hfield⟩,
    fun i ↦ ?_⟩
  · rw [hleaf, Nat.zero_add, List.nil_append, List.singleton_append]
  · rw [hread, Layout.get?_cons, Layout.parts, hk, Option.bind_some]

/-! ## Layouts exist

A part is missing only where following a member meets a dead end, and then there is a leaf for it
that is no field. -/

/-- A leaf that is no dead end. -/
def Leaf.IsField (leaf : Leaf) : Prop := ∃ path owner member, leaf = .field path owner member

mutual

theorem Inlined.exists_partOf (typePath : String) (i : Inlined) (base : List Nat)
    (h : ∀ leaf ∈ i.leaves base, leaf.IsField) : ∃ part, Layout.partOf typePath i = .ok part := by
  match i with
  | .field owner member => exact ⟨_, by rw [Layout.partOf]⟩
  | .parent member info message members =>
    rw [leaves] at h
    obtain ⟨parts, hparts⟩ := Inlined.exists_partsOf info.path members base 0 h
    exact ⟨_, by rw [Layout.partOf, hparts, ok_bind, pure_eq_ok]⟩
  | .invalid member | .cycle member =>
    rw [leaves] at h
    obtain ⟨path, owner, m, heq⟩ := h _ List.mem_cons_self
    cases heq

theorem Inlined.exists_partsOf (typePath : String) (members : List Inlined) (base : List Nat)
    (index : Nat) (h : ∀ leaf ∈ Inlined.leavesFrom base index members, leaf.IsField) :
    ∃ parts, Layout.partsOf typePath members = .ok parts := by
  match members with
  | [] => exact ⟨[], by rw [Layout.partsOf]⟩
  | i :: rest =>
    rw [leavesFrom, List.forall_mem_append] at h
    obtain ⟨part, hpart⟩ := Inlined.exists_partOf typePath i _ h.1
    obtain ⟨parts, hparts⟩ := Inlined.exists_partsOf typePath rest base (index + 1) h.2
    exact ⟨_, by rw [Layout.partsOf, hpart, ok_bind, hparts, ok_bind, pure_eq_ok]⟩

end

/-- A message has a layout if all its leaves are fields. -/
theorem TypeInfo.exists_layout {env : Environment} {info : TypeInfo} {message : MessageInfo}
    (h : ∀ leaf ∈ info.leaves env message, leaf.IsField) :
    ∃ l, Layout.ofInfo env info message = .ok l := by
  obtain ⟨parts, hparts⟩ := Inlined.exists_partsOf info.path _ [] 0 h
  exact ⟨_, by rw [Layout.ofInfo, hparts, ok_bind, pure_eq_ok]⟩

end ProtoSchema
