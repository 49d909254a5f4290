import ProtoSchema.Proofs.Building.WellFormed
import ProtoSchema.Proofs.Types.Spreading

/-!
# Building a type without its supertypes

The checks of a member look at how the member is declared. Where it stands and how it is read make
no difference, nor does the name of the type, except in the text of an error. So the members of a
type that is spread pass the checks that they pass in their supertypes, and become the same fields.
Only the paths differ: each field is now found at a position of its own.

Oneofs are the one thing that could get in the way, since their members must have one owner. All
members have the same owner once they are spread.
-/

set_option autoImplicit false

namespace ProtoSchema

open Wire

/-- The references lead to enums with the same values. -/
def Environment.SameEnums (env env' : Environment) : Prop :=
  ∀ ref : TypeRef,
    (ref.info? env').bind TypeInfo.variants? = (ref.info? env).bind TypeInfo.variants?

/-! ## Environments with the same enums

A default of an enum field is looked up in the description of the enum. Nothing else in the checks
of a member looks into the environment, and a further message in it changes no enum. -/

theorem TypeRef.info?_append_singleton (env : Environment) (info : TypeInfo) (ref : TypeRef) :
    ref.info? (env ++ [info]) = ref.info? env ∨
      ref.info? env = none ∧ ref.info? (env ++ [info]) = some info := by
  unfold TypeRef.info?
  split
  · unfold Environment.own?
    rw [List.find?_append, List.find?_singleton]
    cases env.find? fun i ↦ decide (i.type = ref.type) with
    | some i => exact .inl rfl
    | none =>
      split
      · exact .inr ⟨rfl, rfl⟩
      · exact .inl rfl
  · next index _ =>
    rcases Nat.lt_or_ge index env.length with hlt | hge
    · exact .inl (by rw [List.getElem?_append_left hlt])
    · rw [List.getElem?_append_right hge, List.getElem?_eq_none hge]
      cases index - env.length with
      | zero =>
        rw [List.getElem?_cons_zero, Option.filter_some]
        split
        · exact .inr ⟨rfl, rfl⟩
        · exact .inl rfl
      | succ n => exact .inl rfl
  · exact .inl rfl
  · exact .inl rfl

theorem Environment.sameEnums_append_singleton {env : Environment} {info : TypeInfo}
    (h : info.variants? = none) : env.SameEnums (env ++ [info]) := by
  intro ref
  rcases TypeRef.info?_append_singleton env info ref with hsame | ⟨hnone, hnew⟩
  · rw [hsame]
  · rw [hnone, hnew, Option.bind_some, h, Option.bind_none]

/-! ## Members that are read in another way

All checks of a member are compared with those of the same member with another getter, each by an
equivalence about what it comes to. -/

namespace Member

variable {env env' : Environment} {resolve : Resolver} {typePath typePath' : String} {m : Member}
  {path path' : List Nat} {getter : Getter}

theorem shape_eq_ok_iff {s : Shape} :
    ({ m with getter } : Member).shape typePath' = .ok s ↔ m.shape typePath = .ok s := by
  unfold shape
  have htype : ({ m with getter } : Member).type = m.type := rfl
  rw [htype]
  cases m.type with
  | map key value => cases key <;> simp only [ite_error_eq_ok, reduceCtorEq]
  | _ => simp only [ite_error_eq_ok]

theorem name_eq_ok_iff {type : TypeRef} {expected : TypeSort} {name : String} :
    resolve.name env typePath m type expected = .ok name ↔
      resolve type.type = some ⟨name, expected⟩ := by
  refine ⟨resolve_of_name, fun h ↦ ?_⟩
  unfold Resolver.name
  rw [h]
  exact if_pos rfl

theorem elementType_of_getter {element : FieldType} {type : ValueType} {b : Binding}
    (h : m.elementType env resolve typePath path element = .ok (type, b)) :
    ({ m with getter } : Member).elementType env' resolve typePath' path' element =
      .ok (type, { b with path := path' }) := by
  cases element with
  | scalar natural =>
    rw [elementType] at h ⊢
    split at h
    · next hnone =>
      cases h
      simp only [hnone]
    · next s hs =>
      obtain ⟨hkind, h⟩ := ite_ok_eq_ok.1 h
      cases h
      simp only [hs, if_pos hkind]
  | enum ref isOpen | message ref =>
    obtain ⟨name, hname, h⟩ := bind_eq_ok.1 h
    refine bind_eq_ok.2 ⟨name, name_eq_ok_iff.2 (name_eq_ok_iff.1 hname), ?_⟩
    split at h
    · cases h
    · next hnone =>
      cases h
      simp only [hnone]
  | optional _ | repeated _ | map _ _ => cases h

theorem packing_eq_ok_iff {c : Cardinality} {type : ValueType} {packed : Bool} :
    ({ m with getter } : Member).packing typePath' c type = .ok packed ↔
      m.packing typePath c type = .ok packed := by
  unfold packing
  cases m.packed with
  | none => rfl
  | some declared => cases declared <;> simp only [ite_ok_eq_ok]

theorem forEnum_eq_ok_iff (henums : env.SameEnums env') {ref : TypeRef} {l : DefaultLiteral}
    {d : DefaultValue} : l.forEnum env' ref = .ok d ↔ l.forEnum env ref = .ok d := by
  unfold DefaultLiteral.forEnum
  rw [henums ref]
  cases (ref.info? env).bind TypeInfo.variants? with
  | none => simp only [reduceCtorEq]
  | some variants =>
    dsimp only
    cases variants.find? l.means <;> simp only [reduceCtorEq]

theorem checkedDefault_eq_ok_iff (henums : env.SameEnums env') {s : Shape} {type : ValueType}
    {d : Option DefaultValue} :
    ({ m with getter } : Member).checkedDefault env' typePath' s type = .ok d ↔
      m.checkedDefault env typePath s type = .ok d := by
  unfold checkedDefault
  cases m.default with
  | none => rfl
  | some literal =>
    simp only [mapError_eq_ok, map_eq_ok]
    refine exists_congr fun a ↦ and_congr_left fun _ ↦ ?_
    split
    · exact forEnum_eq_ok_iff henums
    · exact forEnum_eq_ok_iff henums
    · rfl
    · rfl
    · rfl

theorem checkedOneof_eq_ok_iff {s : Shape} {group : Option String} :
    ({ m with getter } : Member).checkedOneof typePath' s = .ok group ↔
      m.checkedOneof typePath s = .ok group := by
  unfold checkedOneof
  cases m.oneof with
  | none => rfl
  | some g => simp only [ite_error_eq_ok]

theorem Passes.toField_eq {s : Shape} {f : Field} {b : Binding}
    (h : m.Passes env resolve typePath path s f b) :
    m.toField env resolve typePath path = .ok (f, b) := by
  have hpacking := h.packing
  have hwireType := h.wireType
  rw [← h.cardinality] at hpacking hwireType
  unfold toField
  simp only [h.number, h.isFieldNumber, if_true, ok_bind, ← h.name, h.isIdentifier, Bool.not_true,
    Bool.false_eq_true, if_false, h.shape, h.elementType, hpacking, h.default, h.oneof,
    ← h.cardinality, ← h.presence, ← h.mapKey, ← h.docs, ← hwireType]
  rfl

/-- A member that is read in another way becomes the same field, at another path and in another
environment. -/
theorem toField_of_getter (henums : env.SameEnums env') {f : Field} {b : Binding}
    (h : m.toField env resolve typePath path = .ok (f, b)) :
    ({ m with getter } : Member).toField env' resolve typePath' path' =
      .ok (f, { b with path := path' }) := by
  obtain ⟨s, hm⟩ := passes_of_toField h
  exact Passes.toField_eq {
    hm with
    shape := shape_eq_ok_iff.2 hm.shape
    elementType := elementType_of_getter hm.elementType
    packing := packing_eq_ok_iff.2 hm.packing
    default := (checkedDefault_eq_ok_iff henums).2 hm.default
    oneof := checkedOneof_eq_ok_iff.2 hm.oneof }

end Member

/-! ## Types without supertypes

Once all members are fields, following members changes nothing: the leaves are the members, each at
its own position. -/

section

variable {env : Environment} {info : TypeInfo} {message : MessageInfo}

theorem Inlined.leavesFrom_fields (owner : TypeId) (members : List Member) (base : List Nat)
    (index : Nat) :
    Inlined.leavesFrom base index (members.map (.field owner)) =
      members.mapIdx fun k member ↦ .field (base ++ [index + k]) owner member := by
  induction members generalizing index with
  | nil => rw [List.map_nil, leavesFrom, List.mapIdx_nil]
  | cons member rest ih =>
    rw [List.map_cons, leavesFrom, leaves, List.mapIdx_cons, ih]
    simp only [Nat.add_zero, Nat.add_assoc, Nat.add_comm 1, List.singleton_append]

theorem Layout.partsOf_fields (typePath : String) (owner : TypeId) (members : List Member) :
    partsOf typePath (members.map (.field owner)) = .ok (members.map fun m ↦ .field m.getter) := by
  induction members with
  | nil => rw [List.map_nil, partsOf, List.map_nil]
  | cons member rest ih =>
    rw [List.map_cons, partsOf, partOf, ok_bind, ih, ok_bind, pure_eq_ok, List.map_cons]

/-- Every member is a field. -/
def MessageInfo.HasFieldsOnly (message : MessageInfo) : Prop :=
  ∀ m ∈ message.members, ∃ type, m.kind = .field type

namespace MessageInfo.HasFieldsOnly

theorem inline_eq (h : message.HasFieldsOnly) (env : Environment) (info : TypeInfo) :
    info.inline env message = message.members.map (.field info.type) := by
  rw [TypeInfo.inline, inlineMembers.eq_def]
  refine List.map_congr_left fun m hm ↦ ?_
  obtain ⟨type, hkind⟩ := h m hm
  rw [hkind]

theorem leaves_eq (h : message.HasFieldsOnly) (env : Environment) (info : TypeInfo) :
    info.leaves env message = message.members.mapIdx fun k m ↦ .field [k] info.type m := by
  rw [TypeInfo.leaves, h.inline_eq env info, Inlined.leavesFrom_fields]
  simp only [List.nil_append, Nat.zero_add]

theorem layout_eq (h : message.HasFieldsOnly) (env : Environment) (info : TypeInfo) :
    Layout.ofInfo env info message = .ok (.mk info.path (message.members.map (·.name))
      message.factory message.unknown (message.members.map fun m ↦ .field m.getter)) := by
  rw [Layout.ofInfo, h.inline_eq env info, Layout.partsOf_fields]
  rfl

end MessageInfo.HasFieldsOnly

theorem TypeInfo.Leads.exists_type {path : List Nat} {owner : TypeInfo} {m : Member}
    (h : info.Leads env path owner m) : ∃ type, m.kind = .field type := by
  induction h with
  | own _ _ hkind => exact ⟨_, hkind⟩
  | inherited _ _ _ _ _ ih => exact ih

theorem MessageInfo.hasFieldsOnly_spread {l : Layout} (hmessage : info.message? = some message)
    (hl : Layout.ofInfo env info message = .ok l) (factory : Factory) :
    (message.spread env info factory).HasFieldsOnly := by
  intro m hm
  obtain ⟨leaf, hleaf, path, owner, member, rfl, hmember, -⟩ :=
    exists_of_forall₂_right (leaves_spreadsTo hl factory) hm
  obtain ⟨declaring, -, hleads⟩ := TypeInfo.leads_of_mem hmessage hleaf
  rw [hmember]
  exact hleads.exists_type

end

/-! ## Messages

That numbers and names differ and that oneofs are not called like fields is said of the fields
alone, so it holds of the same fields wherever they stand. Only the owners of oneofs are looked at
anew. -/

section

variable {env env' : Environment} {resolve : Resolver} {typePath typePath' name name' : String}
  {info info' : TypeInfo} {message : MessageInfo} {factory : Factory} {built : BuiltMessage}

theorem checkLeaves_of_owner {owner : TypeId} {groups : List (String × TypeId)}
    {leaves : List Leaf} {declared : List DeclaredField}
    (hgroups : ∀ g t, groups.lookup g = some t → t = owner)
    (h : List.Forall₂ (fun leaf d ↦ d.owner = owner ∧ ∃ path m, leaf = .field path owner m ∧
      m.toField env resolve typePath path = .ok (d.field, d.binding)) leaves declared) :
    checkLeaves env resolve typePath groups leaves = .ok declared := by
  induction h generalizing groups with
  | nil => rfl
  | cons hd _ ih =>
    obtain ⟨rfl, path, m, rfl, hfield⟩ := hd
    rw [checkLeaves, hfield, ok_bind]
    dsimp only
    split
    · rw [ih hgroups]
      rfl
    · next group _ =>
      split
      · rw [ih fun g t hg ↦ ?_]
        · rfl
        · rw [List.lookup_cons] at hg
          split at hg
          · exact (Option.some.inj hg).symm
          · exact hgroups g t hg
      · next first hfirst =>
        rw [if_pos (hgroups _ _ hfirst), ih hgroups]
        rfl

theorem checkDistinct_of_ok {earlier fields : List Field}
    (h : checkDistinct typePath earlier fields = .ok ()) :
    checkDistinct typePath' earlier fields = .ok () := by
  induction fields generalizing earlier with
  | nil => rfl
  | cons f rest ih =>
    rw [checkDistinct] at h ⊢
    split at h
    · cases h
    · obtain ⟨hname, h⟩ := ite_error_eq_ok.1 h
      exact ite_error_eq_ok.2 ⟨hname, ih h⟩

theorem checkGroupNames_of_ok {fields members : List Field}
    (h : checkGroupNames typePath fields members = .ok ()) :
    checkGroupNames typePath' fields members = .ok () := by
  induction members with
  | nil => rfl
  | cons f rest ih =>
    rw [checkGroupNames] at h ⊢
    split at h
    · exact ih h
    · obtain ⟨hfree, h⟩ := ite_error_eq_ok.1 h
      exact ite_error_eq_ok.2 ⟨hfree, ih h⟩

/-- A field that stands in a type of its own, at the given position. -/
def DeclaredField.standsAt (owner : TypeId) (k : Nat) (d : DeclaredField) : DeclaredField :=
  ⟨owner, d.field, { d.binding with path := [k] }⟩

theorem fields_standsAt (owner : TypeId) (declared : List DeclaredField) :
    (declared.mapIdx (DeclaredField.standsAt owner)).map (·.field) = declared.map (·.field) := by
  refine List.ext_getElem? fun k ↦ ?_
  rw [List.getElem?_map, List.getElem?_mapIdx, Option.map_map, List.getElem?_map]
  rfl

theorem bindings_standsAt (owner : TypeId) (declared : List DeclaredField) :
    ((declared.mapIdx (DeclaredField.standsAt owner)).map (·.field)).zip
        ((declared.mapIdx (DeclaredField.standsAt owner)).map (·.binding)) =
      ((declared.map (·.field)).zip (declared.map (·.binding))).mapIdx fun k fb ↦
        (fb.1, { fb.2 with path := [k] }) := by
  refine List.ext_getElem? fun k ↦ ?_
  rw [List.zip_map', List.zip_map', List.getElem?_map, List.getElem?_mapIdx, Option.map_map,
    List.getElem?_mapIdx, List.getElem?_map, Option.map_map]
  rfl

theorem checkLeaves_spread (factory : Factory) (info' : TypeInfo) (henums : env.SameEnums env')
    (hmessage : info.message? = some message) {l : Layout}
    (hl : Layout.ofInfo env info message = .ok l) {declared : List DeclaredField}
    (h : checkLeaves env resolve typePath [] (info.leaves env message) = .ok declared) :
    checkLeaves env' resolve typePath' [] (info'.leaves env' (message.spread env info factory)) =
      .ok (declared.mapIdx (DeclaredField.standsAt info'.type)) := by
  have hgroups : ∀ g t, ([] : List (String × TypeId)).lookup g = some t → t = info'.type := by
    intro g t hg
    cases hg
  refine checkLeaves_of_owner hgroups ?_
  rw [(MessageInfo.hasFieldsOnly_spread hmessage hl factory).leaves_eq]
  refine forall₂_mapIdx (forall₂_cross (MessageInfo.leaves_spreadsTo hl factory)
    (forall₂_of_checkLeaves h)) fun k member d _ hmember ↦ ?_
  obtain ⟨leaf, ⟨path, owner, m, rfl, hm, -⟩, path', m', heq, hfield⟩ := hmember
  cases heq
  rw [hm]
  exact ⟨rfl, [k], _, rfl, Member.toField_of_getter henums hfield⟩

/-- **A type that builds also builds without its supertypes**, with the same fields and the same
oneofs. Each field is found at its own position. -/
theorem buildMessage_spread (factory : Factory) (info' : TypeInfo) (name' : String)
    (henums : env.SameEnums env') (hmessage : info.message? = some message) {l : Layout}
    (hl : Layout.ofInfo env info message = .ok l)
    (h : buildMessage env resolve info message name = .ok built) :
    ∃ built', buildMessage env' resolve info' (message.spread env info factory) name' = .ok built' ∧
      built'.descriptor.fields = built.descriptor.fields ∧
      built'.descriptor.oneofs = built.descriptor.oneofs ∧
      built'.descriptor.fields.zip built'.bindings =
        (built.descriptor.fields.zip built.bindings).mapIdx fun k fb ↦
          (fb.1, { fb.2 with path := [k] }) := by
  obtain ⟨-, declared, hdeclared, hdistinct, hgroups, rfl⟩ := buildMessage_eq_ok.1 h
  have hfields := fields_standsAt info'.type declared
  have hparams : checkParams info'.path (message.spread env info factory) = .ok () := rfl
  refine ⟨_, buildMessage_eq_ok.2 ⟨hparams, _,
    checkLeaves_spread factory info' henums hmessage hl hdeclared, ?_, ?_, rfl⟩, hfields, ?_,
    bindings_standsAt info'.type declared⟩
  · rw [hfields]
    exact checkDistinct_of_ok hdistinct
  · rw [hfields]
    exact checkGroupNames_of_ok hgroups
  · rw [hfields]

theorem TypeInfo.kind_of_message? (h : info.message? = some message) :
    info.kind = .message message := by
  rw [message?] at h
  split at h
  · next hkind => rw [hkind, Option.some.inj h]
  · cases h

theorem buildMessage_of_build {ref : TypeRef} (hinfo : ref.info? env = some info)
    (hmessage : info.message? = some message)
    (h : (build env resolve ref).result = .ok (.message built)) :
    ∃ name, buildMessage env resolve info message name = .ok built := by
  obtain ⟨resolved, -, ⟨message', b, hkind, heq, hb⟩ | ⟨_, _, _, heq, -⟩⟩ := build_eq_ok hinfo h
  · cases heq
    cases (TypeInfo.kind_of_message? hmessage).symm.trans hkind
    exact ⟨_, hb⟩
  · cases heq

theorem build_of_buildMessage {ref : TypeRef} {resolved : Resolved}
    (hinfo : ref.info? env = some info) (hmessage : info.message? = some message)
    (hidentifier : Text.isIdentifier info.typeName = true)
    (hresolved : resolve ref.type = some resolved)
    (h : buildMessage env resolve info message resolved.qualifiedName = .ok built) :
    (build env resolve ref).result = .ok (.message built) := by
  have hkind := TypeInfo.kind_of_message? hmessage
  unfold build
  simp only [hinfo, hresolved, hidentifier, hkind, Bool.not_true, Bool.false_eq_true, if_false]
  exact Logged.bind_eq_ok.2 ⟨built, h, rfl⟩

end

/-! ## Marshallers

A plan depends on its field, on the binding, and on there being a field of the layout at its path.
In the type that is spread the last is a matter of positions. -/

section

variable {env : Environment} {resolve : Resolver} {name : String} {info info' : TypeInfo}
  {message : MessageInfo} {factory : Factory} {built built' : BuiltMessage}

theorem exists_planOf {l : Layout} {f : Field} {b : Binding} (hb : b.Refers resolve f.type)
    (hpath : l.hasField b.path = true) : ∃ p, planOf info l f b = .ok p := by
  unfold planOf
  cases htype : f.type with
  | scalar s => exact ⟨_, if_pos hpath⟩
  | enum target | message target =>
    rw [htype] at hb
    obtain ⟨t, ht, -⟩ := hb
    rw [ht]
    exact ⟨_, if_pos hpath⟩

theorem planOf_of_path {l l' : Layout} {f : Field} {b : Binding} {p : Plan} {path : List Nat}
    (h : planOf info l f b = .ok p) (hpath : l'.hasField path = true) :
    planOf info' l' f { b with path } = .ok { p with path } := by
  unfold planOf at h ⊢
  dsimp only at h ⊢
  split at h
  · obtain ⟨-, h⟩ := ite_ok_eq_ok.1 h
    cases h
    exact if_pos hpath
  · obtain ⟨-, h⟩ := ite_ok_eq_ok.1 h
    cases h
    exact if_pos hpath
  · obtain ⟨-, h⟩ := ite_ok_eq_ok.1 h
    cases h
    exact if_pos hpath
  · cases h

/-- **What builds compiles.** The leaves are fields, so there is a layout, and each of their paths
leads to a field of it. -/
theorem MessageMarshaller.exists_compile (hmessage : info.message? = some message)
    (h : buildMessage env resolve info message name = .ok built) :
    ∃ m, MessageMarshaller.compile env info built = .ok m := by
  obtain ⟨-, declared, hdeclared, -, -, rfl⟩ := buildMessage_eq_ok.1 h
  have hall := forall₂_of_checkLeaves hdeclared
  obtain ⟨l, hl⟩ : ∃ l, Layout.ofInfo env info message = .ok l := by
    refine TypeInfo.exists_layout fun leaf hleaf ↦ ?_
    obtain ⟨d, -, path, m, rfl, -⟩ := exists_of_forall₂_left hall hleaf
    exact ⟨path, d.owner, m, rfl⟩
  obtain ⟨plans, hplans⟩ : ∃ plans, ((declared.map (·.field)).zip (declared.map (·.binding))).mapM
      (fun fb ↦ planOf info l fb.1 fb.2) = .ok plans := by
    refine exists_mapM fun fb hfb ↦ ?_
    rw [List.zip_map', List.mem_map] at hfb
    obtain ⟨d, hd, rfl⟩ := hfb
    obtain ⟨leaf, hleaf, path, m, rfl, hfield⟩ := exists_of_forall₂_right hall hd
    obtain ⟨member', -, path', owner, m', heq, -, hpath, -⟩ :=
      exists_of_forall₂_left (MessageInfo.leaves_spreadsTo hl message.factory) hleaf
    cases heq
    obtain ⟨-, hb, hrefers⟩ := Member.toField_sound hfield
    exact exists_planOf hrefers (hb ▸ hpath)
  unfold MessageMarshaller.compile
  simp only [hmessage, hl, ok_bind]
  rw [hplans]
  exact ⟨_, rfl⟩

/-- A marshaller keeps the fields of another one at positions of their own, and reads there what the
other one reads at its paths. -/
structure MessageMarshaller.SpreadsTo (m m' : MessageMarshaller) : Prop where
  plans : m'.plans = m.plans.mapIdx fun k p ↦ { p with path := [k] }
  parts : ∀ (k : Nat) (p : Plan), m.plans[k]? = some p → ∃ getter : Getter,
    m'.layout.parts[k]? = some (.field getter) ∧ ∀ i, getter.read i = m.layout.get? i p.path
  unknown : m'.layout.unknown = m.layout.unknown

/-- Plans and members of the spread type stand in the same order, and a member reads what is found
at the path of its plan. -/
theorem MessageMarshaller.MadeOf.forall₂_plans_spread {m : MessageMarshaller}
    (hm : m.MadeOf env resolve info message) (factory : Factory) :
    List.Forall₂ (fun p member ↦ ∀ i, member.getter.read i = m.layout.get? i p.path)
      m.plans (message.spread env info factory).members := by
  refine (forall₂_cross hm.forall₂_plans (MessageInfo.leaves_spreadsTo hm.layout factory)).imp
    fun p member hmember i ↦ ?_
  obtain ⟨leaf, ⟨owner, m', b, rfl, -, -⟩, path', owner', m'', heq, -, -, hread⟩ := hmember
  cases heq
  exact hread i

/-- The marshaller of another type that has the given members in the places of the plans. -/
def MessageMarshaller.spread (m : MessageMarshaller) (info' : TypeInfo) (message' : MessageInfo)
    (descriptor : MessageType) : MessageMarshaller where
  type := info'.type
  descriptor
  plans := m.plans.mapIdx fun k p ↦ { p with path := [k] }
  layout := .mk info'.path (message'.members.map (·.name)) message'.factory message'.unknown
    (message'.members.map fun member ↦ .field member.getter)

theorem MessageMarshaller.MadeOf.spreadsTo {m : MessageMarshaller}
    (hm : m.MadeOf env resolve info message) (info' : TypeInfo) (factory : Factory)
    (descriptor : MessageType) :
    m.SpreadsTo (m.spread info' (message.spread env info factory) descriptor) where
  plans := rfl
  parts k p hp := by
    obtain ⟨member, hmember, hread⟩ :=
      exists_getElem?_of_forall₂ (hm.forall₂_plans_spread factory) hp
    refine ⟨member.getter, ?_, hread⟩
    rw [MessageMarshaller.spread, Layout.parts, List.getElem?_map, hmember]
    rfl
  unknown := by
    obtain ⟨parts, -, hl⟩ := bind_eq_ok.1 hm.layout
    rw [← Except.ok.inj hl]
    rfl

/-- **The marshaller of a type that is spread** has the plans of the type, at positions of their
own. -/
theorem MessageMarshaller.compile_spread (env' : Environment) {m : MessageMarshaller}
    (hmessage : info.message? = some message)
    (hbuild : buildMessage env resolve info message name = .ok built)
    (hcompile : MessageMarshaller.compile env info built = .ok m)
    (hmessage' : info'.message? = some (message.spread env info factory))
    (hzip : built'.descriptor.fields.zip built'.bindings =
      (built.descriptor.fields.zip built.bindings).mapIdx fun k fb ↦
        (fb.1, { fb.2 with path := [k] })) :
    MessageMarshaller.compile env' info' built' =
      .ok (m.spread info' (message.spread env info factory) built'.descriptor) := by
  have hm : m.MadeOf env resolve info message := ⟨hmessage, name, built, hbuild, hcompile⟩
  obtain ⟨-, -, -, hplans⟩ := compile_eq_ok hcompile
  have hplans' : List.Forall₂ (fun fb p ↦ planOf info'
        (m.spread info' (message.spread env info factory) built'.descriptor).layout fb.1 fb.2
          = .ok p)
      (built'.descriptor.fields.zip built'.bindings)
      (m.plans.mapIdx fun k p ↦ { p with path := [k] }) := by
    rw [hzip]
    refine forall₂_mapIdx hplans fun k fb p hk hof ↦ planOf_of_path hof ?_
    obtain ⟨p', hp', -⟩ := exists_getElem?_of_forall₂ hplans hk
    obtain ⟨getter, hgetter, -⟩ := (hm.spreadsTo info' factory built'.descriptor).parts k p' hp'
    exact Layout.hasField_cons.2 ⟨_, hgetter, rfl⟩
  have hlayout : Layout.ofInfo env' info' (message.spread env info factory) =
      .ok (m.spread info' (message.spread env info factory) built'.descriptor).layout :=
    (MessageInfo.hasFieldsOnly_spread hmessage hm.layout factory).layout_eq env' info'
  unfold MessageMarshaller.compile
  simp only [hmessage', hlayout, ok_bind]
  rw [mapM_eq_ok.2 hplans']
  rfl

end

end ProtoSchema
