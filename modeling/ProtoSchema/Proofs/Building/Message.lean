import Mathlib.Data.List.Nodup
import ProtoSchema.Building.Message
import ProtoSchema.Proofs.Building.Field

/-!
# What a checked message satisfies

The fields of a checked message are the leaves of its inlined members, in order, each checked on its
own and no two of them with one number or name. That the paths of leaves are distinct is no check at
all. It holds because following members extends a path by the position at which they branch off.
-/

set_option autoImplicit false

namespace ProtoSchema

/-! ## Paths of leaves

Following members extends a path by the position at which it branches off. So the leaves below
different members differ at that position, and those below one member differ behind it. -/

/-- The path of a leaf that is a field. -/
def Leaf.path? : Leaf → Option (List Nat)
  | field path _ _ => some path
  | _ => none

/-- Where each leaf is a field, what stands for the leaves has their paths. -/
theorem Leaf.filterMap_path? {α : Type} {path : α → List Nat} {leaves : List Leaf} {as : List α}
    (h : List.Forall₂ (fun leaf a ↦ ∃ owner m, leaf = .field (path a) owner m) leaves as) :
    leaves.filterMap path? = as.map path := by
  induction h with
  | nil => rfl
  | cons hleaf _ ih =>
    obtain ⟨owner, m, rfl⟩ := hleaf
    rw [List.filterMap_cons, ih]
    rfl

mutual

theorem Inlined.nodup_leaves (path : List Nat) (i : Inlined) :
    ((i.leaves path).filterMap Leaf.path?).Nodup ∧
      ∀ q ∈ (i.leaves path).filterMap Leaf.path?, ∃ rest, q = path ++ rest := by
  match i with
  | .field owner member =>
    rw [leaves]
    exact ⟨List.nodup_singleton path, fun q hq ↦ ⟨[], by simpa [Leaf.path?] using hq⟩⟩
  | .parent member info message members =>
    rw [leaves]
    obtain ⟨hnodup, hpaths⟩ := Inlined.nodup_leavesFrom path 0 members
    refine ⟨hnodup, fun q hq ↦ ?_⟩
    obtain ⟨k, rest, -, rfl⟩ := hpaths q hq
    exact ⟨k :: rest, rfl⟩
  | .invalid member =>
    rw [leaves]
    exact ⟨List.nodup_nil, fun q hq ↦ absurd hq List.not_mem_nil⟩
  | .cycle member =>
    rw [leaves]
    exact ⟨List.nodup_nil, fun q hq ↦ absurd hq List.not_mem_nil⟩

theorem Inlined.nodup_leavesFrom (path : List Nat) (index : Nat) (members : List Inlined) :
    ((Inlined.leavesFrom path index members).filterMap Leaf.path?).Nodup ∧
      ∀ q ∈ (Inlined.leavesFrom path index members).filterMap Leaf.path?,
        ∃ k rest, index ≤ k ∧ q = path ++ k :: rest := by
  match members with
  | [] =>
    rw [leavesFrom]
    exact ⟨List.nodup_nil, fun q hq ↦ absurd hq List.not_mem_nil⟩
  | i :: members =>
    rw [leavesFrom, List.filterMap_append]
    obtain ⟨hi, hipaths⟩ := Inlined.nodup_leaves (path ++ [index]) i
    obtain ⟨hms, hmspaths⟩ := Inlined.nodup_leavesFrom path (index + 1) members
    refine ⟨List.nodup_append.2 ⟨hi, hms, ?_⟩, fun q hq ↦ ?_⟩
    · intro q hq q' hq' heq
      obtain ⟨rest, hrest⟩ := hipaths q hq
      obtain ⟨k, rest', hk, hrest'⟩ := hmspaths q' hq'
      rw [heq, hrest', List.append_assoc, List.append_cancel_left_eq] at hrest
      have hhead : k = index := by
        injection hrest
      omega
    · rcases List.mem_append.1 hq with hq | hq
      · obtain ⟨rest, rfl⟩ := hipaths q hq
        exact ⟨index, rest, Nat.le_refl index, by rw [List.append_assoc, List.singleton_append]⟩
      · obtain ⟨k, rest, hk, rfl⟩ := hmspaths q hq
        exact ⟨k, rest, by omega, rfl⟩

end

/-! ## The checks

Leaves are checked one after the other, and what was found so far is carried along: the owner of
each oneof, and the fields that are already there. A field that passes is told apart from all
earlier ones by its number and by its name. -/

/-- The first leaf is a field that passes its own checks. The other leaves are checked with its type
as the owner of its oneof, besides those that were owners before. -/
theorem checkLeaves_cons_eq_ok {env : Environment} {resolve : Resolver} {typePath : String}
    {groups : List (String × TypeId)} {leaf : Leaf} {rest : List Leaf}
    {declared : List DeclaredField}
    (h : checkLeaves env resolve typePath groups (leaf :: rest) = .ok declared) :
    ∃ path m d groups' ds, leaf = .field path d.owner m ∧
      m.toField env resolve typePath path = .ok (d.field, d.binding) ∧
      (∀ g t, groups.lookup g = some t → groups'.lookup g = some t) ∧
      (∀ g, d.field.oneof = some g → groups'.lookup g = some d.owner) ∧
      checkLeaves env resolve typePath groups' rest = .ok ds ∧ declared = d :: ds := by
  cases leaf with
  | invalid m | cycle m => cases h
  | field path owner m =>
    rw [checkLeaves, bind_eq_ok] at h
    obtain ⟨⟨f, b⟩, hf, h⟩ := h
    dsimp only at h
    split at h
    · next hnone =>
      obtain ⟨ds, hds, h⟩ := bind_eq_ok.1 h
      cases h
      refine ⟨path, m, ⟨owner, f, b⟩, groups, ds, rfl, hf, fun _ _ hg ↦ hg, fun g hg ↦ ?_, hds,
        rfl⟩
      cases hnone.symm.trans hg
    · next group hgroup =>
      split at h
      · next hnew =>
        obtain ⟨ds, hds, h⟩ := bind_eq_ok.1 h
        cases h
        refine ⟨path, m, ⟨owner, f, b⟩, (group, owner) :: groups, ds, rfl, hf, fun g t hg ↦ ?_,
          fun g hg ↦ ?_, hds, rfl⟩
        · -- The oneof had no owner so far, so this is another one.
          have hne : (g == group) = false := by
            refine beq_false_of_ne fun heq ↦ ?_
            rw [heq, hnew] at hg
            cases hg
          rw [List.lookup_cons, hne]
          exact hg
        · cases hgroup.symm.trans hg
          rw [List.lookup_cons, beq_self_eq_true]
      · next first hfirst =>
        split at h
        · next hsame =>
          obtain ⟨ds, hds, h⟩ := bind_eq_ok.1 h
          cases h
          refine ⟨path, m, ⟨owner, f, b⟩, groups, ds, rfl, hf, fun _ _ hg ↦ hg, fun g hg ↦ ?_, hds,
            rfl⟩
          cases hgroup.symm.trans hg
          exact hsame ▸ hfirst
        · cases h

theorem forall₂_of_checkLeaves {env : Environment} {resolve : Resolver} {typePath : String}
    {groups : List (String × TypeId)} {leaves : List Leaf} {declared : List DeclaredField}
    (h : checkLeaves env resolve typePath groups leaves = .ok declared) :
    List.Forall₂ (fun leaf d ↦ ∃ path m, leaf = .field path d.owner m ∧
      m.toField env resolve typePath path = .ok (d.field, d.binding)) leaves declared := by
  induction leaves generalizing groups declared with
  | nil =>
    cases h
    exact .nil
  | cons leaf rest ih =>
    obtain ⟨path, m, d, groups', ds, rfl, hfield, -, -, hrest, rfl⟩ := checkLeaves_cons_eq_ok h
    exact .cons ⟨path, m, rfl, hfield⟩ (ih hrest)

theorem exists_owners_of_checkLeaves {env : Environment} {resolve : Resolver} {typePath : String}
    {groups : List (String × TypeId)} {leaves : List Leaf} {declared : List DeclaredField}
    (h : checkLeaves env resolve typePath groups leaves = .ok declared) :
    ∃ owners : List (String × TypeId),
      (∀ g t, groups.lookup g = some t → owners.lookup g = some t) ∧
      ∀ d ∈ declared, ∀ g, d.field.oneof = some g → owners.lookup g = some d.owner := by
  induction leaves generalizing groups declared with
  | nil =>
    cases h
    exact ⟨groups, fun _ _ hg ↦ hg, fun d hd ↦ absurd hd List.not_mem_nil⟩
  | cons leaf rest ih =>
    obtain ⟨path, m, d, groups', ds, rfl, -, hkept, howner, hrest, rfl⟩ := checkLeaves_cons_eq_ok h
    obtain ⟨owners, hkept', hall⟩ := ih hrest
    refine ⟨owners, fun g t hg ↦ hkept' g t (hkept g t hg), ?_⟩
    exact List.forall_mem_cons.2 ⟨fun g hg ↦ hkept' g d.owner (howner g hg), hall⟩

/-- Fields that are told apart by number and by name. -/
def Field.Differs (f g : Field) : Prop := f.number ≠ g.number ∧ f.name ≠ g.name

theorem pairwise_of_checkDistinct {typePath : String} {earlier fields : List Field}
    (h : checkDistinct typePath earlier fields = .ok ()) :
    fields.Pairwise Field.Differs ∧ ∀ e ∈ earlier, ∀ f ∈ fields, e.Differs f := by
  induction fields generalizing earlier with
  | nil => exact ⟨.nil, fun e _ f hf ↦ absurd hf List.not_mem_nil⟩
  | cons f rest ih =>
    rw [checkDistinct] at h
    split at h
    · cases h
    · next hnumber =>
      obtain ⟨hname, h⟩ := ite_error_eq_ok.1 h
      obtain ⟨hrest, hearlier⟩ := ih h
      refine ⟨.cons (hearlier f List.mem_cons_self) hrest, fun e he g hg ↦ ?_⟩
      rcases List.mem_cons.1 hg with rfl | hg
      · have hn := List.find?_eq_none.1 hnumber e he
        rw [Bool.not_eq_true, List.any_eq_false] at hname
        have hm := hname e he
        exact ⟨by simpa using hn, by simpa using hm⟩
      · exact hearlier e (List.mem_cons_of_mem f he) g hg

/-- What every checked message satisfies. -/
structure BuiltMessage.Sound (built : BuiltMessage) (resolve : Resolver) : Prop where
  length_eq : built.descriptor.fields.length = built.bindings.length
  fields : ∀ f b, (f, b) ∈ built.descriptor.fields.zip built.bindings →
    f.Sound ∧ b.Refers resolve f.type
  differs : built.descriptor.fields.Pairwise Field.Differs
  paths : (built.bindings.map (·.path)).Nodup

variable {env : Environment} {resolve : Resolver} {info : TypeInfo} {message : MessageInfo}
  {qualifiedName : String} {built : BuiltMessage}

/-- The checks of a message, in their order, and what comes of them. -/
theorem buildMessage_eq_ok :
    buildMessage env resolve info message qualifiedName = .ok built ↔
      checkParams info.path message = .ok () ∧ ∃ declared,
        checkLeaves env resolve info.path [] (info.leaves env message) = .ok declared ∧
        checkDistinct info.path [] (declared.map (·.field)) = .ok () ∧
        checkGroupNames info.path (declared.map (·.field)) (declared.map (·.field)) = .ok () ∧
        built = {
          descriptor :=
            { name := info.typeName, qualifiedName, fields := declared.map (·.field)
              oneofs := groupFields (declared.map (·.field)), docs := info.docs }
          bindings := declared.map (·.binding) } := by
  constructor
  · intro h
    obtain ⟨_, hparams, h⟩ := bind_eq_ok.1 h
    obtain ⟨declared, hdeclared, h⟩ := bind_eq_ok.1 h
    obtain ⟨_, hdistinct, h⟩ := bind_eq_ok.1 h
    obtain ⟨_, hgroups, h⟩ := bind_eq_ok.1 h
    exact ⟨hparams, declared, hdeclared, hdistinct, hgroups, (Except.ok.inj h).symm⟩
  · rintro ⟨hparams, declared, hdeclared, hdistinct, hgroups, rfl⟩
    simp only [buildMessage, hparams, hdeclared, hdistinct, hgroups, ok_bind, pure_eq_ok]

/-- **Checked messages are sound.** -/
theorem buildMessage_sound (h : buildMessage env resolve info message qualifiedName = .ok built) :
    built.Sound resolve := by
  obtain ⟨-, declared, hdeclared, hdistinct, -, rfl⟩ := buildMessage_eq_ok.1 h
  have hall := forall₂_of_checkLeaves hdeclared
  have hsound : ∀ d ∈ declared, ∃ path m, d.binding.path = path ∧
      Leaf.field path d.owner m ∈ info.leaves env message ∧ d.field.Sound ∧
        d.binding.Refers resolve d.field.type := by
    intro d hd
    obtain ⟨leaf, hleaf, path, m, rfl, hm⟩ := exists_of_forall₂_right hall hd
    obtain ⟨hf, hpath, hrefers⟩ := Member.toField_sound hm
    exact ⟨path, m, hpath, hleaf, hf, hrefers⟩
  have hpaths : (declared.map (·.binding)).map (·.path) =
      (info.leaves env message).filterMap Leaf.path? := by
    rw [List.map_map]
    refine (Leaf.filterMap_path? (hall.imp fun leaf d hleaf ↦ ?_)).symm
    obtain ⟨path, m, rfl, hm⟩ := hleaf
    obtain ⟨-, hpath, -⟩ := Member.toField_sound hm
    exact ⟨d.owner, m, by rw [Function.comp_apply, hpath]⟩
  refine ⟨?_, ?_, ?_, ?_⟩
  · rw [List.length_map, List.length_map]
  · intro f b hfb
    rw [List.zip_map', List.mem_map] at hfb
    obtain ⟨d, hd, he⟩ := hfb
    cases he
    obtain ⟨-, -, -, -, hf, hrefers⟩ := hsound d hd
    exact ⟨hf, hrefers⟩
  · exact (pairwise_of_checkDistinct hdistinct).1
  · rw [hpaths]
    exact (Inlined.nodup_leavesFrom [] 0 _).1

end ProtoSchema
