import Mathlib.Data.Finset.Card
import ProtoSchema.Codec.Layout
import ProtoSchema.Proofs.Compilation.Members
import ProtoSchema.Proofs.Types.Inlining

/-!
# Following supertypes comes to an end

Types may flatten one another in any way, themselves included, so nothing in the shape of the
descriptions makes the walk along flattened members end. What ends it is that no type is entered
that the walk is in already. `Environment.unvisited` is what remains to be entered. It shrinks
whenever a supertype is followed, and its size is never more than the number of descriptions, which
is why the bound of `inlineMembers` is never met.

Here the walk is run by a clock that stops it at any depth. A clock beyond the number of
descriptions is shown not to matter, first for the walk that collects references. The walk that
builds layouts does without looking at the types it is in. It ends as well, provided that the walk
that does look came upon no dead end.
-/

set_option autoImplicit false

namespace ProtoSchema

/-! ## What remains to be entered

The bound of the walk goes down with each supertype that is entered, and so does the number of types
that remain. A reference that leads to no description is a dead end, which takes no step. -/

namespace Environment

variable {env : Environment} {visiting : List TypeId}

/-- The described types that are not being followed. -/
def unvisited (env : Environment) (visiting : List TypeId) : Finset TypeId :=
  ((env ++ builtinAdapters).map (·.type)).toFinset \ visiting.toFinset

theorem card_unvisited_le (env : Environment) (visiting : List TypeId) :
    (env.unvisited visiting).card ≤ env.length + builtinAdapters.length := by
  have hlength : ((env ++ builtinAdapters).map (·.type)).length =
      env.length + builtinAdapters.length := by
    rw [List.length_map, List.length_append]
  rw [← hlength]
  exact (Finset.card_le_card Finset.sdiff_subset).trans (List.toFinset_card_le _)

theorem card_unvisited_cons {ref : TypeRef} {info : TypeInfo} (hinfo : ref.info? env = some info)
    (hnew : ref.type ∉ visiting) :
    (env.unvisited (ref.type :: visiting)).card < (env.unvisited visiting).card := by
  refine Finset.card_lt_card (Finset.ssubset_iff_of_subset ?_ |>.2 ⟨ref.type, ?_, ?_⟩)
  · refine Finset.sdiff_subset_sdiff (Finset.Subset.refl _) ?_
    rw [List.toFinset_cons]
    exact Finset.subset_insert _ _
  · rw [unvisited, Finset.mem_sdiff, List.mem_toFinset, List.mem_toFinset]
    refine ⟨?_, hnew⟩
    rw [← TypeRef.type_of_info? hinfo]
    exact List.mem_map_of_mem (TypeRef.mem_of_info? hinfo)
  · rw [unvisited, Finset.mem_sdiff, List.mem_toFinset, List.mem_toFinset]
    exact fun hmem ↦ hmem.2 List.mem_cons_self

end Environment

/-- What following a member comes to, where the bound is no less than the number of types that
remain to be entered: it is met nowhere. -/
inductive Member.Follows (env : Environment) (fuel : Nat) (visiting : List TypeId) (owner : TypeId)
    (member : Member) : Inlined → Prop
  | field {type : FieldType} (hkind : member.kind = .field type) :
      Follows env fuel visiting owner member (.field owner member)
  | invalid {ref : TypeRef} (hkind : member.kind = .flatten ref)
      (hinfo : ∀ info, ref.info? env = some info → info.message? = none) :
      Follows env fuel visiting owner member (.invalid member)
  | cycle {ref : TypeRef} {info : TypeInfo} {message : MessageInfo}
      (hkind : member.kind = .flatten ref) (hinfo : ref.info? env = some info)
      (hmessage : info.message? = some message) (hagain : ref.type ∈ visiting) :
      Follows env fuel visiting owner member (.cycle member)
  | parent {ref : TypeRef} {info : TypeInfo} {message : MessageInfo} {rest : Nat}
      (hkind : member.kind = .flatten ref) (hinfo : ref.info? env = some info)
      (hmessage : info.message? = some message) (hnew : ref.type ∉ visiting)
      (hrest : (env.unvisited (ref.type :: visiting)).card ≤ rest) :
      Follows env fuel visiting owner member (.parent member info message
        (inlineMembers env rest (ref.type :: visiting) info.type message.members))

variable {env : Environment} {fuel clock : Nat} {visiting : List TypeId} {owner : TypeId}

theorem follows_inlineMembers (hfuel : (env.unvisited visiting).card ≤ fuel)
    (members : List Member) : List.Forall₂ (Member.Follows env fuel visiting owner) members
      (inlineMembers env fuel visiting owner members) := by
  rw [inlineMembers, List.forall₂_map_right_iff, List.forall₂_same]
  intro member _
  split
  · next type hkind => exact .field hkind
  · next ref hkind =>
    split
    · next hinfo =>
      refine .invalid hkind fun info h ↦ ?_
      cases hinfo.symm.trans h
    · next info hinfo =>
      split
      · next hmessage =>
        refine .invalid hkind fun info' h ↦ ?_
        cases hinfo.symm.trans h
        exact hmessage
      · next message hmessage =>
        split
        · next hagain => exact .cycle hkind hinfo hmessage (by simpa using hagain)
        · next hnew =>
          have hnew : ref.type ∉ visiting := by simpa using hnew
          have hless := Environment.card_unvisited_cons hinfo hnew
          split
          · omega
          · exact .parent hkind hinfo hmessage hnew (by omega)

/-! ## Collecting references

Both walks enter the same supertypes in the same order, and stop at the same types. One is stopped
by the clock, and the other one by its bound. -/

namespace TypeInfo

/-- The types that the fields of a type refer to, those of supertypes included unless they are being
followed. There is no outcome if the clock runs out. -/
def collectRefs (env : Environment) :
    (clock : Nat) → (visiting : List TypeId) → TypeInfo → Option (List TypeRef)
  | 0, _, _ => none
  | clock + 1, visiting, info =>
    match info.message? with
    | none => some []
    | some message => do
      let refs ← message.members.mapM fun member ↦
        match member.kind with
        | .field type => some type.references
        | .flatten ref =>
          if visiting.contains ref.type then some []
          else
            match ref.info? env with
            | none => some []
            | some parent => collectRefs env clock (ref.type :: visiting) parent
      return refs.flatten

/-- What following the members of a type comes to. -/
def inlineIn (env : Environment) (fuel : Nat) (visiting : List TypeId) (info : TypeInfo) :
    List Inlined :=
  match info.message? with
  | none => []
  | some message => inlineMembers env fuel visiting info.type message.members

theorem mapM_references {members : List Member} {followed : List Inlined}
    {f : Member → Option (List TypeRef)}
    (h : List.Forall₂ (fun member i ↦ ∀ path,
      f member = some ((i.leaves path).flatMap Leaf.references)) members followed)
    (path : List Nat) (index : Nat) : ∃ refs, members.mapM f = some refs ∧
      refs.flatten = (Inlined.leavesFrom path index followed).flatMap Leaf.references := by
  induction h generalizing index with
  | nil => exact ⟨[], rfl, by rw [Inlined.leavesFrom]; rfl⟩
  | @cons member i members followed hhead _ ih =>
    obtain ⟨refs, hrefs, hflat⟩ := ih (index + 1)
    refine ⟨(i.leaves (path ++ [index])).flatMap Leaf.references :: refs, ?_, ?_⟩
    · rw [List.mapM_cons, hhead (path ++ [index]), hrefs]
      rfl
    · rw [List.flatten_cons, hflat, Inlined.leavesFrom, List.flatMap_append]

theorem references_of_follows {clock : Nat} {member : Member} {i : Inlined}
    (hclock : (env.unvisited visiting).card < clock + 1)
    (ih : ∀ {visiting fuel}, (env.unvisited visiting).card < clock →
      (env.unvisited visiting).card ≤ fuel → ∀ (info : TypeInfo) (path : List Nat),
        info.collectRefs env clock visiting = some
          ((Inlined.leavesFrom path 0 (info.inlineIn env fuel visiting)).flatMap Leaf.references))
    (h : member.Follows env fuel visiting owner i) (path : List Nat) :
    (match member.kind with
      | .field type => some type.references
      | .flatten ref =>
        if visiting.contains ref.type then some []
        else
          match ref.info? env with
          | none => some []
          | some parent => parent.collectRefs env clock (ref.type :: visiting)) =
      some ((i.leaves path).flatMap Leaf.references) := by
  cases h with
  | @field type hkind =>
    rw [Inlined.leaves, List.flatMap_singleton, Leaf.references, Member.type, hkind]
  | @invalid ref hkind hinfo =>
    simp only [hkind, Inlined.leaves]
    split
    · rfl
    · next hnew =>
      have hnew : ref.type ∉ visiting := by simpa using hnew
      cases hdescribed : ref.info? env with
      | none => rfl
      | some info =>
        -- An enum is entered as well, and nothing is found there.
        have hless := Environment.card_unvisited_cons hdescribed hnew
        dsimp only
        rw [ih (by omega) (Nat.le_refl _) info path, inlineIn, hinfo info hdescribed]
        dsimp only
        rw [Inlined.leavesFrom]
        rfl
  | @cycle ref info message hkind hinfo hmessage hagain =>
    have hagain : visiting.contains ref.type = true := by simpa using hagain
    simp only [hkind, hagain, if_true, Inlined.leaves]
    rfl
  | @parent ref info message rest hkind hinfo hmessage hnew hrest =>
    have hless := Environment.card_unvisited_cons hinfo hnew
    have hnew : ¬visiting.contains ref.type = true := by simpa using hnew
    simp only [hkind, if_neg hnew, hinfo]
    rw [ih (by omega) hrest info path, inlineIn, hmessage, Inlined.leaves]

/-- **Collecting references ends** on a clock that goes on for longer than there are types to be
entered, with what following the members comes to. -/
theorem collectRefs_eq (hclock : (env.unvisited visiting).card < clock)
    (hfuel : (env.unvisited visiting).card ≤ fuel) (info : TypeInfo) (path : List Nat) :
    info.collectRefs env clock visiting = some
      ((Inlined.leavesFrom path 0 (info.inlineIn env fuel visiting)).flatMap Leaf.references) := by
  induction clock generalizing visiting fuel info path with
  | zero => omega
  | succ clock ih =>
    rw [collectRefs, inlineIn]
    cases info.message? with
    | none =>
      dsimp only
      rw [Inlined.leavesFrom]
      rfl
    | some message =>
      obtain ⟨refs, hrefs, hflat⟩ := mapM_references ((follows_inlineMembers hfuel
        message.members).imp fun _ _ ↦ references_of_follows hclock ih) path 0
      dsimp only
      rw [← hflat]
      exact Option.bind_eq_some_iff.2 ⟨refs, hrefs, rfl⟩

theorem references_eq (info : TypeInfo) : info.references env =
    (Inlined.leavesFrom [] 0 (info.inlineIn env (env.length + builtinAdapters.length)
      [info.type])).flatMap Leaf.references := by
  rw [references, inlineIn]
  cases info.message? with
  | none =>
    dsimp only
    rw [Inlined.leavesFrom]
    rfl
  | some message => rfl

end TypeInfo

/-! ## Building layouts

This walk enters a type even if it is in it already. That it does not do so forever is left to the
leaves, which were collected before and met no dead end. -/

namespace Layout

/-- The layout of a message, built by following its supertypes wherever they lead. There is no
outcome if the clock runs out. -/
def newWithin (env : Environment) :
    (clock : Nat) → TypeInfo → MessageInfo → ExceptT SchemaError Option Layout
  | 0, _, _ => .mk none
  | clock + 1, info, message => do
    let parts ← message.members.mapM fun member ↦
      match member.kind with
      | .field _ => pure (.field member.getter)
      | .flatten ref =>
        match ref.info? env with
        | none => throw (.invalidFlatten info.path member.name)
        | some parent =>
          match parent.message? with
          | none => throw (.invalidFlatten info.path member.name)
          | some inner => return .flatten member.getter (← newWithin env clock parent inner)
    return mk info.path (message.members.map (·.name)) message.factory message.unknown parts

theorem mapM_eq_pure {α β : Type} {m : Type → Type} [Monad m] [LawfulMonad m] {f : α → m β}
    {as : List α} {bs : List β} (h : List.Forall₂ (fun a b ↦ f a = pure b) as bs) :
    as.mapM f = pure bs := by
  induction h with
  | nil => rfl
  | cons hhead _ ih => rw [List.mapM_cons, hhead, pure_bind, ih, pure_bind]

theorem newWithin_eq {info : TypeInfo} {message : MessageInfo} {parts : List Part}
    (hclock : (env.unvisited visiting).card < clock)
    (hfuel : (env.unvisited visiting).card ≤ fuel)
    (hparts : partsOf info.path (inlineMembers env fuel visiting info.type message.members) =
      .ok parts) :
    newWithin env clock info message =
      pure (mk info.path (message.members.map (·.name)) message.factory message.unknown parts) := by
  induction clock generalizing visiting fuel info message parts with
  | zero => omega
  | succ clock ih =>
    have hmembers := forall₂_cross (follows_inlineMembers hfuel message.members).flip
      (partsOf_eq_ok hparts)
    rw [newWithin, mapM_eq_pure (hmembers.imp fun member part hmember ↦ ?_), pure_bind]
    obtain ⟨i, hfollows, hpart⟩ := hmember
    cases hfollows with
    | field hkind =>
      rw [partOf] at hpart
      cases hpart
      rw [hkind]
    | invalid | cycle =>
      rw [partOf] at hpart
      cases hpart
    | @parent ref parent inner rest hkind hinfo hmessage hnew hrest =>
      rw [partOf] at hpart
      obtain ⟨inners, hinners, hpart⟩ := bind_eq_ok.1 hpart
      cases hpart
      have hless := Environment.card_unvisited_cons hinfo hnew
      simp only [hkind, hinfo, hmessage]
      rw [ih (by omega) hrest hinners, pure_bind]

end Layout

/-! ## Coming back

A type that is come back to would have to be entered anew for ever, and its layout would contain
itself. -/

namespace TypeInfo

variable {info owner : TypeInfo} {path : List TypeId}

/-- Below the type a supertype is flattened that is the type itself or stands on the path along
which it was come to. -/
def ComesBack (env : Environment) (info : TypeInfo) : Prop :=
  ∃ owner path message, InlinedVia env owner info path ∧ owner.message? = some message ∧
    ∃ member ∈ message.members, ∃ ref, member.kind = .flatten ref ∧ ref.type ∈ info.type :: path

theorem parent_of_partsOf {typePath : String} {parts : List Part} {message : MessageInfo}
    {member : Member} {ref : TypeRef} (hfuel : (env.unvisited visiting).card ≤ fuel)
    (hparts : Layout.partsOf typePath (info.inlineIn env fuel visiting) = .ok parts)
    (hmessage : info.message? = some message) (hmember : member ∈ message.members)
    (hkind : member.kind = .flatten ref) :
    ref.type ∉ visiting ∧ ∃ parent rest inners, ref.info? env = some parent ∧
      (env.unvisited (ref.type :: visiting)).card ≤ rest ∧
      Layout.partsOf parent.path (parent.inlineIn env rest (ref.type :: visiting)) =
        .ok inners := by
  rw [inlineIn, hmessage] at hparts
  obtain ⟨part, -, i, hfollows, hpart⟩ := exists_of_forall₂_left (forall₂_cross
    (follows_inlineMembers hfuel message.members).flip (Layout.partsOf_eq_ok hparts)) hmember
  cases hfollows with
  | field hkind' => cases hkind.symm.trans hkind'
  | invalid | cycle =>
    rw [Layout.partOf] at hpart
    cases hpart
  | @parent ref' parent inner rest hkind' hinfo hinner hnew hrest =>
    cases hkind.symm.trans hkind'
    rw [Layout.partOf] at hpart
    obtain ⟨inners, hinners, -⟩ := bind_eq_ok.1 hpart
    refine ⟨hnew, parent, rest, inners, hinfo, hrest, ?_⟩
    rw [inlineIn, hinner]
    exact hinners

theorem notMem_of_partsOf {typePath : String} {parts : List Part} {message : MessageInfo}
    {member : Member} {ref : TypeRef} (hvia : InlinedVia env owner info path)
    (hfuel : (env.unvisited visiting).card ≤ fuel)
    (hparts : Layout.partsOf typePath (info.inlineIn env fuel visiting) = .ok parts)
    (hmessage : owner.message? = some message) (hmember : member ∈ message.members)
    (hkind : member.kind = .flatten ref) : ref.type ∉ visiting ∧ ref.type ∉ path := by
  induction hvia generalizing fuel visiting typePath parts with
  | self =>
    obtain ⟨hnew, -⟩ := parent_of_partsOf hfuel hparts hmessage hmember hkind
    exact ⟨hnew, List.not_mem_nil⟩
  | @step info parent path hflat hvia ih =>
    obtain ⟨message', hmessage', member', hmember', ref', hkind', hinfo'⟩ := hflat
    obtain ⟨-, _, rest, inners, hinfo, hrest, hinners⟩ :=
      parent_of_partsOf hfuel hparts hmessage' hmember' hkind'
    obtain rfl := Option.some.inj (hinfo'.symm.trans hinfo)
    obtain ⟨hvisiting, hpath⟩ := ih hrest hinners
    rw [List.mem_cons, not_or] at hvisiting
    refine ⟨hvisiting.2, ?_⟩
    rw [List.mem_cons, not_or, TypeRef.type_of_info? hinfo]
    exact ⟨hvisiting.1, hpath⟩

/-- **A layout is built of no type that is come back to.** -/
theorem not_comesBack_of_layout {message : MessageInfo} {l : Layout}
    (hmessage : info.message? = some message) (hl : Layout.ofInfo env info message = .ok l) :
    ¬info.ComesBack env := by
  rintro ⟨owner, path, message', hvia, hmessage', member, hmember, ref, hkind, hagain⟩
  obtain ⟨parts, hparts, -⟩ := bind_eq_ok.1 hl
  have hinline : info.inline env message =
      info.inlineIn env (env.length + builtinAdapters.length) [info.type] := by
    rw [inlineIn, hmessage]
    rfl
  rw [hinline] at hparts
  obtain ⟨hself, hpath⟩ := notMem_of_partsOf hvia (env.card_unvisited_le _) hparts hmessage'
    hmember hkind
  rcases List.mem_cons.1 hagain with heq | hmem
  · exact hself (by rw [heq, List.mem_singleton])
  · exact hpath hmem

end TypeInfo

/-- **Building a layout ends** after no more steps than there are descriptions if there is one. -/
theorem Layout.newWithin_of_ofInfo {info : TypeInfo} {message : MessageInfo} {l : Layout}
    (hl : ofInfo env info message = .ok l)
    (hclock : env.length + builtinAdapters.length < clock) :
    newWithin env clock info message = pure l := by
  obtain ⟨parts, hparts, hl⟩ := bind_eq_ok.1 hl
  cases hl
  have hunvisited := env.card_unvisited_le [info.type]
  exact newWithin_eq (Nat.lt_of_le_of_lt hunvisited hclock) hunvisited hparts

end ProtoSchema
