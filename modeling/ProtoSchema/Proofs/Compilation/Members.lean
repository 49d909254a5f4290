import ProtoSchema.Proofs.Codec.Shape
import ProtoSchema.Proofs.Compilation.Compiled
import ProtoSchema.Proofs.Types.Inlining

/-!
# Members and their plans

The members of a type are compiled twice over: into plans, one for each leaf of the inlined members,
and into a layout, which keeps the tree that the leaves came from. The two meet at paths. Wherever
in the layout a description is put to work, as that of the type itself or of a supertype that it
inlines, each member that is a field has a plan for its path, and each flattened member a layout
with the factory of its supertype.
-/

set_option autoImplicit false

namespace ProtoSchema

/-! ## From the shape of a plan to the declared shape

A member declares the type of its elements, and whether it is a list, a map or optional. The field
that is built of it keeps all of this, only that a scalar may be declared to travel as another one
of its kind. -/

namespace Member

variable {env : Environment} {resolve : Resolver} {typePath : String} {m : Member}
  {path : List Nat} {v : Value}

theorem holds_of_elementType {element : FieldType} {type : ValueType} {b : Binding} {e : Element}
    (h : m.elementType env resolve typePath path element = .ok (type, b))
    (he : e.Describes type b) (hv : e.Holds v) : element.Holds v := by
  cases element with
  | scalar natural =>
    rw [elementType] at h
    split at h
    · cases h
      rw [show e = .scalar natural from he] at hv
      exact hv
    · next s _ =>
      obtain ⟨hkind, h⟩ := ite_ok_eq_ok.1 h
      cases h
      rw [show e = .scalar s from he] at hv
      exact hv.trans (congrArg some hkind)
  | enum ref isOpen =>
    obtain ⟨name, -, h⟩ := bind_eq_ok.1 h
    split at h <;> cases h
    obtain ⟨t, -, rfl⟩ := he
    exact hv
  | message ref =>
    obtain ⟨name, -, h⟩ := bind_eq_ok.1 h
    split at h <;> cases h
    obtain ⟨t, ht, rfl⟩ := he
    cases ht
    exact hv
  | optional _ | repeated _ | map _ _ => cases h

theorem holds_of_toField {b : Binding} {p : Plan}
    (h : m.toField env resolve typePath path = .ok (p.field, b))
    (he : p.element.Describes p.field.type b) :
    (∀ v, p.Holds v → m.type.Holds v) ∧
      (p.field.cardinality = .optional → ∀ ref, m.type ≠ .message ref) ∧
      (p.field.default = none → m.default = none) := by
  obtain ⟨s, hm⟩ := passes_of_toField h
  have hshape := type_of_shape hm.shape
  have helement : ∀ {v}, p.element.Holds v → s.element.Holds v :=
    holds_of_elementType hm.elementType he
  rw [← hm.cardinality] at hshape
  refine ⟨fun v hv ↦ ?_, fun hopt ref hmessage ↦ ?_, fun hnone ↦ ?_⟩
  · unfold Plan.Holds at hv
    cases hcard : p.field.cardinality with
    | required =>
      rw [hcard] at hv hshape
      rcases hshape with htype | htype <;> rw [htype] <;> exact helement hv
    | optional =>
      rw [hcard] at hv hshape
      rcases hshape with htype | ⟨htype, -⟩ <;> rw [htype] <;> exact helement hv
    | repeated =>
      rw [hcard] at hv hshape
      rw [hshape]
      obtain ⟨vs, rfl, hvs⟩ := hv
      exact ⟨vs, rfl, fun a ha ↦ helement (hvs a ha)⟩
    | map =>
      rw [hcard] at hv hshape
      obtain ⟨k, hkey, htype⟩ := hshape
      rw [hm.mapKey, hkey] at hv
      rw [htype]
      obtain ⟨es, rfl, hes⟩ := hv
      exact ⟨es, rfl, fun e he ↦ ⟨(hes e he).1, helement (hes e he).2⟩⟩
  · rw [hopt] at hshape
    rcases hshape with hshape | ⟨hshape, hne⟩
    · rw [hmessage] at hshape
      cases hshape
    · exact hne ref (hshape.symm.trans hmessage)
  · have hd := hm.default
    rw [hnone, checkedDefault] at hd
    split at hd
    · next hnone => exact hnone
    · obtain ⟨d, -, hd⟩ := map_eq_ok.1 (mapError_eq_ok.1 hd)
      cases hd

end Member

/-! ## From members to parts

Plans are made of the leaves, in the order of a walk through the tree, and layouts of the tree
itself. Both were made by following the same members, so each leaf is found again at its path. -/

variable {env : Environment}

theorem field_of_inlineMembers {fuel k : Nat} {visiting : List TypeId} {owner owner' : TypeId}
    {members : List Member} {member : Member}
    (h : (inlineMembers env fuel visiting owner members)[k]? = some (.field owner' member)) :
    members[k]? = some member ∧ owner' = owner ∧ ∃ type, member.kind = .field type := by
  rw [inlineMembers, List.getElem?_map, Option.map_eq_some_iff] at h
  obtain ⟨member', hk, h⟩ := h
  split at h
  · next hkind =>
    cases h
    exact ⟨hk, rfl, _, hkind⟩
  · repeat' split at h
    all_goals cases h

theorem parent_of_inlineMembers {fuel k : Nat} {visiting : List TypeId} {owner : TypeId}
    {members : List Member} {member : Member} {info : TypeInfo} {message : MessageInfo}
    {inner : List Inlined}
    (h : (inlineMembers env fuel visiting owner members)[k]?
      = some (.parent member info message inner)) :
    members[k]? = some member ∧ (∃ ref : TypeRef, member.kind = .flatten ref ∧
      ref.info? env = some info ∧ info.message? = some message) ∧
        ∃ fuel visiting, inner = inlineMembers env fuel visiting info.type message.members := by
  unfold inlineMembers at h
  rw [List.getElem?_map, Option.map_eq_some_iff] at h
  obtain ⟨member', hk, h⟩ := h
  split at h
  · cases h
  · next ref hkind =>
    split at h
    · cases h
    · next info' hinfo =>
      split at h
      · cases h
      · next message' hmessage =>
        split at h
        · cases h
        · split at h
          · cases h
          · cases h
            exact ⟨hk, ⟨ref, hkind, hinfo, hmessage⟩, _, _, rfl⟩

theorem mem_leavesFrom {path : List Nat} {index k : Nat} {members : List Inlined} {i : Inlined}
    (hi : members[k]? = some i) {leaf : Leaf} (h : leaf ∈ i.leaves (path ++ [index + k])) :
    leaf ∈ Inlined.leavesFrom path index members := by
  induction members generalizing index k with
  | nil => cases hi
  | cons j rest ih =>
    rw [Inlined.leavesFrom, List.mem_append]
    cases k with
    | zero =>
      cases hi
      exact .inl h
    | succ k => exact .inr (ih hi (by rwa [Nat.add_right_comm index 1 k, Nat.add_assoc]))

namespace Layout

theorem partsOf_eq_ok {typePath : String} {members : List Inlined} {parts : List Part}
    (h : partsOf typePath members = .ok parts) :
    List.Forall₂ (fun i part ↦ partOf typePath i = .ok part) members parts := by
  induction members generalizing parts with
  | nil =>
    rw [partsOf] at h
    cases h
    exact .nil
  | cons i rest ih =>
    rw [partsOf] at h
    obtain ⟨part, hpart, h⟩ := bind_eq_ok.1 h
    obtain ⟨ps, hps, h⟩ := bind_eq_ok.1 h
    cases h
    exact .cons hpart (ih hps)

/-- A layout and the layouts of the supertypes that it inlines, each with the path to it. -/
inductive Contains (l : Layout) : List Nat → Layout → Prop
  | self : Contains l [] l
  | parent {path : List Nat} {l' parent : Layout} {k : Nat} {getter : Getter}
      (h : Contains l path l') (hk : l'.parts[k]? = some (.flatten getter parent)) :
      Contains l (path ++ [k]) parent

/-- A layout is made of a description whose members were followed as far as `members`. The fields
among them are leaves of the message that is compiled. -/
structure MadeOf (l : Layout) (env : Environment) (leaves : List Leaf) (path : List Nat)
    (info : TypeInfo) (message : MessageInfo) (members : List Inlined) : Prop where
  kind : info.message? = some message
  mem : info ∈ env ++ builtinAdapters
  names : l.names = message.members.map (·.name)
  factory : l.factory = message.factory
  parts : partsOf info.path members = .ok l.parts
  follows : ∃ fuel visiting, members = inlineMembers env fuel visiting info.type message.members
  leaves : ∀ leaf ∈ Inlined.leavesFrom path 0 members, leaf ∈ leaves

variable {l : Layout} {leaves : List Leaf} {path : List Nat} {info : TypeInfo}
  {message : MessageInfo} {members : List Inlined}

theorem MadeOf.length_eq (h : l.MadeOf env leaves path info message members) :
    l.parts.length = message.members.length := by
  obtain ⟨fuel, visiting, hmembers⟩ := h.follows
  rw [← (partsOf_eq_ok h.parts).length_eq, hmembers, inlineMembers.eq_def, List.length_map]

theorem MadeOf.field_or_parent (h : l.MadeOf env leaves path info message members) {k : Nat}
    {member : Member} (hk : message.members[k]? = some member) :
    (∃ getter type, member.kind = .field type ∧ l.parts[k]? = some (.field getter) ∧
        Leaf.field (path ++ [k]) info.type member ∈ leaves) ∨
      ∃ getter parent ref info' message' inner, member.kind = .flatten ref ∧
        ref.info? env = some info' ∧ l.parts[k]? = some (.flatten getter parent) ∧
        parent.MadeOf env leaves (path ++ [k]) info' message' inner := by
  have hlt : k < members.length := by
    rw [(partsOf_eq_ok h.parts).length_eq, h.length_eq]
    exact (List.getElem?_eq_some_iff.1 hk).1
  obtain ⟨i, hi⟩ : ∃ i, members[k]? = some i := ⟨_, List.getElem?_eq_getElem hlt⟩
  obtain ⟨part, hpart, hof⟩ := exists_getElem?_of_forall₂ (partsOf_eq_ok h.parts) hi
  have hleaves : ∀ leaf ∈ i.leaves (path ++ [k]), leaf ∈ leaves := fun leaf hleaf ↦
    h.leaves leaf (mem_leavesFrom hi (by rwa [Nat.zero_add]))
  obtain ⟨fuel, visiting, hmembers⟩ := h.follows
  rw [hmembers] at hi
  cases i with
  | field owner member' =>
    obtain ⟨hk', rfl, type, hkind⟩ := field_of_inlineMembers hi
    obtain rfl := Option.some.inj (hk.symm.trans hk')
    rw [partOf] at hof
    cases hof
    refine .inl ⟨_, type, hkind, hpart, hleaves _ ?_⟩
    rw [Inlined.leaves]
    exact List.mem_cons_self
  | parent member' info' message' inner =>
    obtain ⟨hk', ⟨ref, hkind, hinfo, hmessage⟩, hinner⟩ := parent_of_inlineMembers hi
    obtain rfl := Option.some.inj (hk.symm.trans hk')
    rw [partOf] at hof
    obtain ⟨parts, hparts, hof⟩ := bind_eq_ok.1 hof
    cases hof
    refine .inr ⟨_, _, ref, info', message', inner, hkind, hinfo, hpart, ?_⟩
    exact {
      kind := hmessage
      mem := TypeRef.mem_of_info? hinfo
      names := rfl
      factory := rfl
      parts := hparts
      follows := hinner
      leaves := fun leaf hleaf ↦ hleaves leaf (by rwa [Inlined.leaves]) }
  | invalid member' | cycle member' =>
    rw [partOf] at hof
    cases hof

/-- At the empty path there is only the layout itself. -/
theorem Contains.eq_of_nil {l' : Layout} (h : l.Contains [] l') : l' = l := by
  generalize hpath : ([] : List Nat) = path at h
  cases h with
  | self => rfl
  | parent _ _ => simp at hpath

/-- Every layout within the layout of a compiled message is made of a description, that of the
message or of a supertype that it flattens. -/
theorem Contains.exists_madeOf {l' : Layout} (hl : l.MadeOf env leaves [] info message members)
    (h : l.Contains path l') :
    ∃ info' message' members', l'.MadeOf env leaves path info' message' members' ∧
      (path = [] → info' = info ∧ message' = message) ∧
      Relation.ReflTransGen (TypeInfo.Flattens env) info info' := by
  induction h with
  | self => exact ⟨info, message, members, hl, fun _ ↦ ⟨rfl, rfl⟩, .refl⟩
  | @parent path l' parent k getter _ hk ih =>
    obtain ⟨info', message', members', hmade, -, hreach⟩ := ih
    have hlt : k < message'.members.length :=
      hmade.length_eq ▸ (List.getElem?_eq_some_iff.1 hk).1
    have hmember := List.getElem?_eq_getElem hlt
    rcases hmade.field_or_parent hmember with ⟨getter', type, -, hpart, -⟩ |
      ⟨getter', parent', ref, i, msg, inner, hkind, hinfo, hpart, hparent⟩
    · cases hk.symm.trans hpart
    · cases hk.symm.trans hpart
      have hflat : info'.Flattens env i :=
        ⟨message', hmade.kind, _, List.mem_of_getElem? hmember, ref, hkind, hinfo⟩
      exact ⟨i, msg, inner, hparent, fun h ↦ absurd h (by simp), hreach.tail hflat⟩

end Layout

namespace MessageMarshaller.MadeOf

variable {m : MessageMarshaller} {resolve : Resolver} {info : TypeInfo} {message : MessageInfo}

/-- The layout of a compiled message is made of the message's description. -/
theorem layout_madeOf (h : m.MadeOf env resolve info message)
    (hinfo : info ∈ env ++ builtinAdapters) :
    m.layout.MadeOf env (info.leaves env message) [] info message (info.inline env message) := by
  have hlayout := h.layout
  unfold Layout.ofInfo at hlayout
  obtain ⟨parts, hparts, hlayout⟩ := bind_eq_ok.1 hlayout
  rw [← Except.ok.inj hlayout]
  exact {
    kind := h.kind
    mem := hinfo
    names := rfl
    factory := rfl
    parts := hparts
    follows := ⟨_, _, rfl⟩
    leaves := fun leaf hleaf ↦ hleaf }

/-- **Every leaf has its plan**, in the same order. -/
theorem forall₂_plans (h : m.MadeOf env resolve info message) :
    List.Forall₂ (fun leaf p ↦ ∃ owner member b, leaf = .field p.path owner member ∧
      member.toField env resolve info.path p.path = .ok (p.field, b) ∧
      p.element.Describes p.field.type b) (info.leaves env message) m.plans := by
  obtain ⟨name, built, hbuild, hcompile⟩ := h.built
  obtain ⟨-, declared, hdeclared, -, -, rfl⟩ := buildMessage_eq_ok.1 hbuild
  obtain ⟨-, -, -, hplans⟩ := compile_eq_ok hcompile
  rw [List.zip_map', List.forall₂_map_left_iff] at hplans
  refine (forall₂_cross (forall₂_of_checkLeaves hdeclared).flip hplans).imp fun leaf p hleaf ↦ ?_
  obtain ⟨d, ⟨path, member, rfl, hfield⟩, hof⟩ := hleaf
  have hof : planOf info m.layout d.field d.binding = .ok p := hof
  obtain ⟨hpf, hpath, -, hdescribes⟩ := planOf_eq_ok hof
  obtain rfl : p.path = path := hpath.trans (Member.toField_sound hfield).2.1
  rw [← hpf] at hfield hdescribes
  exact ⟨d.owner, member, d.binding, rfl, hfield, hdescribes⟩

theorem exists_plan (h : m.MadeOf env resolve info message) {path : List Nat} {owner : TypeId}
    {member : Member} (hleaf : Leaf.field path owner member ∈ info.leaves env message) :
    ∃ (k : Nat) (p : Plan) (b : Binding), m.plans[k]? = some p ∧ p.path = path ∧
      member.toField env resolve info.path path = .ok (p.field, b) ∧
      p.element.Describes p.field.type b := by
  obtain ⟨k, hk⟩ := List.mem_iff_getElem?.1 hleaf
  obtain ⟨p, hp, owner', member', b, heq, hfield⟩ := exists_getElem?_of_forall₂ h.forall₂_plans hk
  cases heq
  exact ⟨k, p, b, hp, rfl, hfield⟩

end MessageMarshaller.MadeOf

end ProtoSchema
