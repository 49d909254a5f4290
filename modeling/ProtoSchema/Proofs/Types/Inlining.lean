import Mathlib.Data.List.Nodup
import Mathlib.Data.List.Perm.Subperm
import Mathlib.Logic.Relation
import ProtoSchema.Types.Inlining

/-!
# What the fields of a type refer to

The references of a type are those of its own fields and of the fields of its supertypes, at any
depth. Supertypes may flatten one another in a circle. Following them stops at a type that is being
inlined already, so a supertype counts if it can be come to along a path on which no type occurs
twice, and a path of this kind is never longer than the number of described types.

Stopping loses nothing as long as a type that is come to again has the description that it had
before, since a circle can then be cut out of a path. It may have another one, since a reference may
lead to any of the descriptions of a type.
-/

set_option autoImplicit false

namespace ProtoSchema

/-- An enum or a message occurs in a shape. -/
inductive FieldType.Mentions : FieldType → TypeRef → Prop
  | enum {ref : TypeRef} {isOpen : Bool} : Mentions (.enum ref isOpen) ref
  | message {ref : TypeRef} : Mentions (.message ref) ref
  | optional {element : FieldType} {ref : TypeRef} (h : Mentions element ref) :
      Mentions (.optional element) ref
  | repeated {element : FieldType} {ref : TypeRef} (h : Mentions element ref) :
      Mentions (.repeated element) ref
  | key {key value : FieldType} {ref : TypeRef} (h : Mentions key ref) :
      Mentions (.map key value) ref
  | value {key value : FieldType} {ref : TypeRef} (h : Mentions value ref) :
      Mentions (.map key value) ref

theorem FieldType.mem_references {type : FieldType} {ref : TypeRef} :
    ref ∈ type.references ↔ type.Mentions ref := by
  constructor
  · intro h
    induction type with
    | scalar _ => exact absurd h List.not_mem_nil
    | enum type _ =>
      rw [List.mem_singleton.1 h]
      exact .enum
    | message type =>
      rw [List.mem_singleton.1 h]
      exact .message
    | optional _ ih => exact .optional (ih h)
    | repeated _ ih => exact .repeated (ih h)
    | map _ _ ihkey ihvalue =>
      rcases List.mem_append.1 h with h | h
      · exact .key (ihkey h)
      · exact .value (ihvalue h)
  · intro h
    induction h with
    | enum => exact List.mem_singleton_self _
    | message => exact List.mem_singleton_self _
    | optional _ ih => exact ih
    | repeated _ ih => exact ih
    | key _ ih => exact List.mem_append_left _ ih
    | value _ ih => exact List.mem_append_right _ ih

namespace TypeInfo

variable {env : Environment} {info parent owner : TypeInfo} {ref : TypeRef} {path : List TypeId}

/-- A field that the type itself declares refers to a type. -/
def Declares (info : TypeInfo) (ref : TypeRef) : Prop :=
  ∃ message, info.message? = some message ∧
    ∃ member ∈ message.members, ∃ type, member.kind = .field type ∧ type.Mentions ref

/-- The type declares a supertype, whose fields become its own. -/
def Flattens (env : Environment) (info parent : TypeInfo) : Prop :=
  ∃ message, info.message? = some message ∧
    ∃ member ∈ message.members, ∃ ref, member.kind = .flatten ref ∧ ref.info? env = some parent

/-- A type is inlined into another one by way of the supertypes on a path, itself the last. -/
inductive InlinedVia (env : Environment) (owner : TypeInfo) : TypeInfo → List TypeId → Prop
  | self : InlinedVia env owner owner []
  | step {info parent : TypeInfo} {path : List TypeId} (h : info.Flattens env parent)
      (hpath : InlinedVia env owner parent path) : InlinedVia env owner info (parent.type :: path)

/-- A field of the type refers to a type, of its own or of a supertype that is flattened into it at
any depth, but not within itself. -/
def Refers (env : Environment) (info : TypeInfo) (ref : TypeRef) : Prop :=
  ∃ owner path, InlinedVia env owner info path ∧ (info.type :: path).Nodup ∧ owner.Declares ref

/-- A field of the type refers to a type, of its own or of any supertype, however often types are
flattened within themselves. -/
def RefersDeeply (env : Environment) (info : TypeInfo) (ref : TypeRef) : Prop :=
  ∃ owner, Relation.ReflTransGen (Flattens env) info owner ∧ owner.Declares ref

/-- A supertype that is flattened within itself has one description there. -/
def Uniform (env : Environment) (info : TypeInfo) : Prop :=
  ∀ a, Relation.ReflTransGen (Flattens env) info a →
    ∀ b, Relation.ReflTransGen (Flattens env) a b → b.type = a.type → b = a

end TypeInfo

/-! ## Following members

One level of following comes to the fields of the type itself, and to what its supertypes lead to,
unless they are being inlined. So a field that is come to lies at the end of a path of new types. -/

/-- A field that a member stands for refers to a type. -/
inductive Inlined.Mentions (ref : TypeRef) : Inlined → Prop
  | field {owner : TypeId} {member : Member} (h : member.type.Mentions ref) :
      Mentions ref (.field owner member)
  | parent {member : Member} {info : TypeInfo} {message : MessageInfo} {members : List Inlined}
      {inner : Inlined} (hinner : inner ∈ members) (h : Mentions ref inner) :
      Mentions ref (.parent member info message members)

mutual

theorem Inlined.mem_references {ref : TypeRef} (path : List Nat) (i : Inlined) :
    ref ∈ (i.leaves path).flatMap Leaf.references ↔ i.Mentions ref := by
  match i with
  | .field owner member =>
    rw [leaves, List.flatMap_singleton, Leaf.references, FieldType.mem_references]
    refine ⟨.field, fun h ↦ ?_⟩
    cases h with
    | field h => exact h
  | .parent member info message members =>
    rw [leaves, Inlined.mem_referencesFrom path 0 members]
    constructor
    · rintro ⟨inner, hinner, h⟩
      exact .parent hinner h
    · intro h
      cases h with
      | parent hinner h => exact ⟨_, hinner, h⟩
  | .invalid member =>
    rw [leaves]
    refine iff_of_false List.not_mem_nil fun h ↦ ?_
    cases h
  | .cycle member =>
    rw [leaves]
    refine iff_of_false List.not_mem_nil fun h ↦ ?_
    cases h

theorem Inlined.mem_referencesFrom {ref : TypeRef} (path : List Nat) (index : Nat)
    (members : List Inlined) :
    ref ∈ (Inlined.leavesFrom path index members).flatMap Leaf.references ↔
      ∃ i ∈ members, i.Mentions ref := by
  match members with
  | [] =>
    rw [leavesFrom]
    simp
  | i :: members =>
    rw [leavesFrom, List.flatMap_append, List.mem_append,
      Inlined.mem_references (path ++ [index]) i,
      Inlined.mem_referencesFrom path (index + 1) members, List.exists_mem_cons_iff]

end

namespace TypeInfo

variable {env : Environment} {info parent owner : TypeInfo} {ref : TypeRef} {path : List TypeId}
  {fuel : Nat} {visiting : List TypeId}

/-- Following the members of a type, while other types are being inlined, comes to a field that
refers to a type. -/
def Finds (env : Environment) (fuel : Nat) (visiting : List TypeId) (info : TypeInfo)
    (ref : TypeRef) : Prop :=
  ∃ message, info.message? = some message ∧
    ∃ i ∈ inlineMembers env fuel visiting info.type message.members, i.Mentions ref

theorem mentions_member {member : Member} {type : FieldType} (hkind : member.kind = .field type) :
    (Inlined.field info.type member).Mentions ref ↔ type.Mentions ref := by
  have htype : member.type = type := by rw [Member.type, hkind]
  constructor
  · intro h
    cases h with
    | field h => rwa [htype] at h
  · intro h
    exact .field (htype ▸ h)

theorem finds_iff : Finds env fuel visiting info ref ↔ info.Declares ref ∨
    ∃ parent rest, info.Flattens env parent ∧ parent.type ∉ visiting ∧ fuel = rest + 1 ∧
      Finds env rest (parent.type :: visiting) parent ref := by
  constructor
  · rintro ⟨message, hmessage, i, hi, h⟩
    rw [inlineMembers, List.mem_map] at hi
    obtain ⟨member, hmember, rfl⟩ := hi
    split at h
    · next type hkind =>
      exact .inl ⟨message, hmessage, member, hmember, type, hkind, (mentions_member hkind).1 h⟩
    · next ref' hkind =>
      split at h
      · cases h
      · next parent hinfo =>
        split at h
        · cases h
        · next message' hmessage' =>
          split at h
          · cases h
          · next hnew =>
            split at h
            · cases h
            · next rest =>
              have htype := TypeRef.type_of_info? hinfo
              rw [← htype] at h hnew
              cases h with
              | parent hinner h =>
                exact .inr ⟨parent, rest, ⟨message, hmessage, member, hmember, ref', hkind, hinfo⟩,
                  by simpa using hnew, rfl, message', hmessage', _, hinner, h⟩
  · rintro (⟨message, hmessage, member, hmember, type, hkind, h⟩ |
      ⟨parent, rest, ⟨message, hmessage, member, hmember, ref', hkind, hinfo⟩, hnew, rfl, message',
        hmessage', inner, hinner, h⟩)
    · refine ⟨message, hmessage, .field info.type member, ?_, (mentions_member hkind).2 h⟩
      rw [inlineMembers, List.mem_map]
      exact ⟨member, hmember, by rw [hkind]⟩
    · have htype := TypeRef.type_of_info? hinfo
      refine ⟨message, hmessage, .parent member parent message'
        (inlineMembers env rest (parent.type :: visiting) parent.type message'.members), ?_,
          .parent hinner h⟩
      rw [inlineMembers, List.mem_map]
      refine ⟨member, hmember, ?_⟩
      have hnew : ¬visiting.contains parent.type = true := by simpa using hnew
      simp only [hkind, hinfo, hmessage', ← htype, if_neg hnew]

theorem finds_iff_inlinedVia : Finds env fuel visiting info ref ↔
    ∃ owner path, InlinedVia env owner info path ∧ path.Nodup ∧ (∀ t ∈ path, t ∉ visiting) ∧
      path.length ≤ fuel ∧ owner.Declares ref := by
  constructor
  · intro h
    induction fuel generalizing visiting info with
    | zero =>
      rcases finds_iff.1 h with hown | ⟨_, _, -, -, hfuel, -⟩
      · exact ⟨info, [], .self, List.nodup_nil, by simp, Nat.le_refl 0, hown⟩
      · cases hfuel
    | succ fuel ih =>
      rcases finds_iff.1 h with hown | ⟨parent, rest, hflat, hnew, hfuel, h⟩
      · exact ⟨info, [], .self, List.nodup_nil, by simp, Nat.zero_le _, hown⟩
      · obtain rfl : fuel = rest := Nat.succ.inj hfuel
        obtain ⟨owner, path, hvia, hnodup, hfresh, hlength, hown⟩ := ih h
        refine ⟨owner, parent.type :: path, .step hflat hvia, ?_, ?_,
          Nat.succ_le_succ hlength, hown⟩
        · exact List.nodup_cons.2 ⟨fun hmem ↦ hfresh _ hmem List.mem_cons_self, hnodup⟩
        · refine List.forall_mem_cons.2 ⟨hnew, fun t ht hvisiting ↦ ?_⟩
          exact hfresh t ht (List.mem_cons_of_mem _ hvisiting)
  · rintro ⟨owner, path, hvia, hnodup, hfresh, hlength, hown⟩
    induction hvia generalizing fuel visiting with
    | self => exact finds_iff.2 (.inl hown)
    | @step info parent path hflat hvia ih =>
      obtain ⟨hnew, hfresh⟩ := List.forall_mem_cons.1 hfresh
      obtain ⟨hout, hnodup⟩ := List.nodup_cons.1 hnodup
      obtain ⟨rest, rfl⟩ : ∃ rest, fuel = rest + 1 :=
        Nat.exists_eq_add_of_le' (Nat.le_trans (Nat.succ_pos path.length) hlength)
      have hfresh' : ∀ t ∈ path, t ∉ parent.type :: visiting := by
        intro t ht hmem
        rcases List.mem_cons.1 hmem with rfl | hmem
        · exact hout ht
        · exact hfresh t ht hmem
      exact finds_iff.2 (.inr ⟨parent, rest, hflat, hnew, rfl,
        ih hnodup hfresh' (Nat.le_of_succ_le_succ hlength)⟩)

theorem InlinedVia.subset (h : InlinedVia env owner info path) :
    path ⊆ (env ++ builtinAdapters).map (·.type) := by
  induction h with
  | self => exact List.nil_subset _
  | step hflat _ ih =>
    obtain ⟨_, _, _, _, ref, -, hinfo⟩ := hflat
    exact List.cons_subset.2 ⟨List.mem_map_of_mem (TypeRef.mem_of_info? hinfo), ih⟩

/-- **The references of a type** are what its fields refer to, inlined fields included. -/
theorem mem_references : ref ∈ info.references env ↔ info.Refers env ref := by
  have hfinds : ref ∈ info.references env ↔
      Finds env (env.length + builtinAdapters.length) [info.type] info ref := by
    unfold references Finds leaves inline
    cases info.message? with
    | none => simp
    | some message =>
      refine (Inlined.mem_referencesFrom [] 0 _).trans ?_
      simp
  rw [hfinds, finds_iff_inlinedVia]
  constructor
  · rintro ⟨owner, path, hvia, hnodup, hfresh, -, hown⟩
    refine ⟨owner, path, hvia, List.nodup_cons.2 ⟨fun hmem ↦ ?_, hnodup⟩, hown⟩
    exact hfresh info.type hmem List.mem_cons_self
  · rintro ⟨owner, path, hvia, hnodup, hown⟩
    obtain ⟨hout, hnodup⟩ := List.nodup_cons.1 hnodup
    refine ⟨owner, path, hvia, hnodup, fun t ht hmem ↦ ?_, ?_, hown⟩
    · rw [List.mem_singleton.1 hmem] at ht
      exact hout ht
    · -- A path without repetition is not longer than the list of described types.
      have hlength := (hnodup.subperm hvia.subset).length_le
      rwa [List.length_map, List.length_append] at hlength

/-! ## Circles

A path with a type that occurs twice has a shorter one beside it, from the second occurrence on. -/

theorem Refers.deeply (h : info.Refers env ref) : info.RefersDeeply env ref := by
  obtain ⟨owner, path, hvia, -, hown⟩ := h
  refine ⟨owner, ?_, hown⟩
  clear hown
  induction hvia with
  | self => exact .refl
  | step hflat _ ih => exact .head hflat ih

theorem InlinedVia.split {t : TypeId} (h : InlinedVia env owner info path)
    (ht : t ∈ info.type :: path) : ∃ mid rest, mid.type = t ∧
      Relation.ReflTransGen (Flattens env) info mid ∧ InlinedVia env owner mid rest ∧
      t :: rest <:+ info.type :: path := by
  induction h with
  | self =>
    rw [List.mem_singleton] at ht
    exact ⟨owner, [], ht.symm, .refl, .self, ht ▸ List.suffix_refl _⟩
  | @step info parent path hflat hvia ih =>
    rcases List.mem_cons.1 ht with rfl | ht
    · exact ⟨info, parent.type :: path, rfl, .refl, .step hflat hvia, List.suffix_refl _⟩
    · obtain ⟨mid, rest, hmid, hreach, hrest, hsuffix⟩ := ih ht
      exact ⟨mid, rest, hmid, .head hflat hreach, hrest, hsuffix.trans (List.suffix_cons _ _)⟩

/-- **Circles can be cut out** if what is flattened within itself has one description there. -/
theorem Uniform.refers_iff (hinfo : info.Uniform env) :
    info.Refers env ref ↔ info.RefersDeeply env ref := by
  refine ⟨Refers.deeply, ?_⟩
  rintro ⟨owner, hreach, hown⟩
  have hsimple : ∃ path, InlinedVia env owner info path ∧ (info.type :: path).Nodup := by
    induction hreach using Relation.ReflTransGen.head_induction_on with
    | refl => exact ⟨[], .self, List.nodup_singleton _⟩
    | @head info parent hflat _ ih =>
      obtain ⟨path, hvia, hnodup⟩ := ih fun a ha ↦ hinfo a (.head hflat ha)
      by_cases hagain : info.type ∈ parent.type :: path
      · -- The type is come to again: what follows from there will do.
        obtain ⟨mid, rest, hmid, hback, hrest, hsuffix⟩ := hvia.split hagain
        obtain rfl : mid = info := hinfo info .refl mid (.head hflat hback) hmid
        exact ⟨rest, hrest, hnodup.sublist hsuffix.sublist⟩
      · exact ⟨parent.type :: path, .step hflat hvia, List.nodup_cons.2 ⟨hagain, hnodup⟩⟩
  obtain ⟨path, hvia, hnodup⟩ := hsimple
  exact ⟨owner, path, hvia, hnodup, hown⟩

/-- All is uniform where every type has one description. -/
theorem uniform_of_nodup (hdistinct : ((env ++ builtinAdapters).map (·.type)).Nodup)
    (hinfo : info ∈ env ++ builtinAdapters) : info.Uniform env := by
  have hdescribed : ∀ a, Relation.ReflTransGen (Flattens env) info a →
      a ∈ env ++ builtinAdapters := by
    intro a ha
    cases ha with
    | refl => exact hinfo
    | tail _ hflat =>
      obtain ⟨_, _, _, _, ref, -, ha⟩ := hflat
      exact TypeRef.mem_of_info? ha
  intro a ha b hb ht
  exact List.inj_on_of_nodup_map hdistinct (hdescribed b (ha.trans hb)) (hdescribed a ha) ht

end TypeInfo

end ProtoSchema
