import ProtoSchema.Proofs.Codec.Instance
import ProtoSchema.Proofs.Compilation.Compiled

/-!
# Records that store what they are handed

The assumption that factories store what they are handed can be met. A record type whose factory is
`Factory.storing` and whose getters are the positions of its members meets it for everything that a
reader may hand over, as long as the fields that may be left empty tell unset from default.

Such types are also the simplest ones to describe, so the schemas on which the theory is watched at
work are made of them.
-/

set_option autoImplicit false

namespace ProtoSchema

open Wire

/-! ## Storing records

Members stand in the order of their slots, so what is at a position of the record is what the slot
of that position was handed. -/

/-- The layout of a record with the named members, each a field in its own position. -/
def Layout.storing (type : TypeId) (names : List String) : Layout :=
  mk type.name names (.storing type) (some (unknownOfRecord type))
    (names.mapIdx fun k _ ↦ .field (.member type k))

/-- The members of a record that stores them and keeps unknown fields. -/
def MessageInfo.storing (type : TypeId) (members : List (Getter → Member)) : MessageInfo where
  members := members.mapIdx fun k member ↦ member (.member type k)
  factory := .storing type
  unknown := some (unknownOfRecord type)

/-- The description of a record that stores its members and keeps unknown fields. -/
def TypeInfo.storing (type : TypeId) (members : List (Getter → Member)) : TypeInfo where
  type := type
  path := type.name
  kind := .message (.storing type members)

section

variable {hand : List Nat → Option Value} {type : TypeId}

/-- Fields are handed the values at their positions. -/
theorem Layout.assembleParts_fields {base : List Nat} {index : Nat} {names : List String}
    (getter : Nat → Getter) :
    assembleParts hand base index (names.mapIdx fun k _ ↦ .field (getter k))
      = .ok (names.mapIdx fun k _ ↦ hand (base ++ [index + k])) := by
  induction names generalizing index getter with
  | nil => rw [List.mapIdx_nil, List.mapIdx_nil, assembleParts]
  | cons name rest ih =>
    rw [List.mapIdx_cons, List.mapIdx_cons, assembleParts, ih (fun k ↦ getter (k + 1)), ok_bind]
    simp only [Nat.add_zero, Nat.add_assoc, Nat.add_comm 1]
    rfl

theorem Layout.partsStore_fields {shows : List Nat → Value → Prop} {base : List Nat} {index : Nat}
    {names : List String} (getter : Nat → Getter) :
    PartsStore hand shows base index (names.mapIdx fun k _ ↦ .field (getter k)) := by
  induction names generalizing index getter with
  | nil =>
    rw [List.mapIdx_nil, PartsStore]
    trivial
  | cons name rest ih =>
    rw [List.mapIdx_cons, PartsStore]
    exact ih fun k ↦ getter (k + 1)

theorem Layout.stores_storing {shows : List Nat → Value → Prop} {unknown : UnknownFields}
    {names : List String} (h : ∀ k < names.length, shows [k] ((hand [k]).getD .absent)) :
    (Layout.storing type names).Stores hand shows [] unknown := by
  rw [storing, Stores]
  refine ⟨partsStore_fields _, fun slots hslots ↦ ?_⟩
  rw [assembleParts_fields] at hslots
  cases hslots
  refine ⟨_, rfl, fun k part slot hpart hslot ↦ ?_⟩
  rw [List.getElem?_mapIdx, Option.map_eq_some_iff] at hpart hslot
  obtain ⟨name, hname, rfl⟩ := hpart
  obtain ⟨-, -, rfl⟩ := hslot
  rw [List.nil_append, Nat.zero_add]
  refine ⟨(hand [k]).getD .absent, ?_, h k (List.getElem?_eq_some_iff.1 hname).1⟩
  simp [Getter.member, hname]

theorem Layout.get?_storing {names : List String} {members : List (Option Value)}
    {hidden : List Value} {unknown : UnknownFields} {k : Nat} (hk : k < names.length) :
    (Layout.storing type names).get? (.record type members hidden unknown) [k]
      = members[k]?.join := by
  rw [storing, get?, parts, List.getElem?_mapIdx, List.getElem?_eq_getElem hk]
  exact if_pos rfl

variable {m : MessageMarshaller} {names : List String}

theorem MessageMarshaller.retained_storing (hl : m.layout = .storing m.type names)
    {members : List (Option Value)} {hidden : List Value} {unknown : UnknownFields} :
    m.retained (.record m.type members hidden unknown) = unknown := by
  rw [retained, hl, Layout.storing, Layout.unknown, Option.bind_some, unknownOfRecord, if_pos rfl]
  rfl

/-- **Storing records store what they are handed.** -/
theorem MessageMarshaller.stores_of_storing (hl : m.layout = .storing m.type names)
    (h : ∀ p ∈ m.plans, hand p.path = none → p.field.presence = true) (unknown : UnknownFields) :
    m.Stores hand unknown where
  members := by
    rw [hl]
    refine Layout.stores_storing fun k _ p hp hpath ↦ ?_
    cases hk : hand [k] with
    | none =>
      rw [Plan.Shows, if_pos (h p hp (by rw [hpath, hk]))]
      rfl
    | some v => rfl
  whole i hi := by
    rw [hl, Layout.storing, Layout.assemble, Layout.assembleParts_fields, ok_bind] at hi
    cases hi
    exact ⟨rfl, retained_storing hl⟩

/-- Storing records store what was read back, too. -/
theorem MessageMarshaller.storesBack_of_storing {x : Instance}
    (hl : m.layout = .storing m.type names)
    (h : ∀ p ∈ m.plans, ∃ v, m.layout.get? x p.path = some v ∧
      (p.handed v = none → p.field.presence = true)) : m.StoresBack x := by
  intro hand hhand
  refine stores_of_storing hl (fun p hp hnone ↦ ?_) _
  obtain ⟨v, hv, hpres⟩ := h p hp
  exact hpres (rel_none (hnone ▸ hhand p hp v hv))

end

/-! ## Compiled schemas of storing records

A schema that the theory is watched on is one unit, compiled into the empty registry. Everything
that is to be known about its marshallers follows from that and from the descriptions in the
unit. -/

deriving instance DecidableEq for Field
deriving instance DecidableEq for Plan

theorem MessageMarshaller.Describes.layout_eq {m : MessageMarshaller} {env : Environment}
    {ref : TypeRef} {info : TypeInfo} {l : Layout} (h : m.Describes env ref)
    (honly : (env ++ builtinAdapters).countP (·.type = info.type) = 1) (hinfo : info ∈ env)
    (htype : info.type = ref.type)
    (hl : ∀ message, info.message? = some message → Layout.ofInfo env info message = .ok l) :
    m.layout = l := by
  obtain ⟨i, message, hi, hmessage, hlayout⟩ := h
  rw [List.countP_eq_length_filter] at honly
  obtain ⟨a, ha⟩ := List.length_eq_one_iff.1 honly
  have heq : ∀ j ∈ env ++ builtinAdapters, j.type = info.type → j = a := fun j hj htype ↦
    List.mem_singleton.1 (ha ▸ List.mem_filter.2 ⟨hj, decide_eq_true htype⟩)
  obtain rfl : i = info := (heq i (TypeRef.mem_of_info? hi)
    ((TypeRef.type_of_info? hi).trans htype.symm)).trans
      (heq info (List.mem_append_left _ hinfo) rfl).symm
  exact Except.ok.inj (hlayout.symm.trans (hl message hmessage))

/-- The registry that a unit makes when it is compiled on its own, or the empty one. -/
def CompilationUnit.registry (u : CompilationUnit) (env : Environment) : Registry :=
  match (u.compile env .empty 0).result with
  | .ok (_, reg) => reg
  | .error _ => .empty

theorem CompilationUnit.compiled_registry (u : CompilationUnit) (env : Environment) :
    (u.registry env).Compiled := by
  unfold registry
  split
  · next h => exact Registry.Compiled.empty.compile h
  · exact .empty

theorem CompilationUnit.registry_eq {u : CompilationUnit} {env : Environment} :
    u.registry env = .empty ∨ ∃ p, (u.prepare env .empty 0).result = .ok p ∧
      (p.commit .empty).result = .ok (u.registry env) := by
  unfold registry
  split
  · next h =>
    obtain ⟨p, hprepare, h⟩ := Logged.bind_eq_ok.1 h
    obtain ⟨reg, hcommit, h⟩ := Logged.bind_eq_ok.1 h
    cases h
    exact .inr ⟨_, hprepare, hcommit⟩
  · exact .inl rfl

/-- What is known of a type that was registered when a unit was compiled on its own. -/
theorem CompilationUnit.exists_marshaller {u : CompilationUnit} {env : Environment}
    (info : TypeInfo) (honly : (env ++ builtinAdapters).countP (·.type = info.type) = 1)
    (hinfo : info ∈ env) {plans : List Plan} {l : Layout}
    (hplans : ((u.registry env).messageMarshaller? info.type).map (·.plans) = some plans)
    (hl : ∀ message, info.message? = some message → Layout.ofInfo env info message = .ok l) :
    ∃ m, (u.registry env).messageMarshaller? info.type = some m ∧ m.type = info.type ∧
      m.plans = plans ∧ m.layout = l := by
  obtain ⟨m, hm, hplans⟩ := Option.map_eq_some_iff.1 hplans
  refine ⟨m, hm, (u.compiled_registry env).closed.type_eq hm, hplans, ?_⟩
  rcases u.registry_eq with h | ⟨p, hprepare, hcommit⟩
  · rw [h] at hm
    cases hm
  · rcases Prepared.describes_of_commit hprepare hcommit hm with hold | ⟨ref, ht, hdescribes⟩
    · cases hold
    · exact hdescribes.layout_eq honly hinfo ht.symm hl

/-! ## A schema of accounts -/

namespace Bank

def owner : TypeId := ⟨"bank::Owner"⟩

def account : TypeId := ⟨"bank::Account"⟩

def firstAccount : TypeId := ⟨"bank::FirstAccount"⟩

def ownerInfo : TypeInfo :=
  .storing owner
    [({ name := "id", kind := .field (.scalar .sint32), getter := ·, number := some 1
        required := true })]

def firstMembers : List (Getter → Member) :=
  [({ name := "name", kind := .field (.scalar .string), getter := ·, number := some 1
      required := true }),
    ({ name := "active", kind := .field (.optional (.scalar .bool)), getter := ·
       number := some 3, default := some (.bool true) })]

/-- The first version of accounts. -/
def firstAccountInfo : TypeInfo := .storing firstAccount firstMembers

/-- An account, which got an owner and codes later. -/
def accountInfo : TypeInfo :=
  .storing account (firstMembers ++
    [({ name := "owner", kind := .field (.optional (.message (.of owner))), getter := ·
        number := some 2 }),
      ({ name := "codes", kind := .field (.repeated (.scalar .uint32)), getter := ·
         number := some 4 })])

def environment : Environment := [ownerInfo, firstAccountInfo, accountInfo]

/-- The registry of all types. -/
def registry : Registry :=
  CompilationUnit.registry
    { fileName := "bank.proto", requested := [.of account, .of firstAccount] } environment

theorem compiled_registry : registry.Compiled := CompilationUnit.compiled_registry _ _

def idPlan : Plan where
  field := ⟨1, "id", .varint, .required, .scalar .sint32, none, none, false, false, none, none⟩
  element := .scalar .sint32
  path := [0]

def namePlan : Plan where
  field :=
    ⟨1, "name", .lengthDelimited, .required, .scalar .string, none, none, false, false, none, none⟩
  element := .scalar .string
  path := [0]

def activePlan : Plan where
  field :=
    ⟨3, "active", .varint, .optional, .scalar .bool, none, some (.bool true), true, false, none,
      none⟩
  element := .scalar .bool
  path := [1]

def ownerPlan : Plan where
  field :=
    ⟨2, "owner", .lengthDelimited, .optional, .message "Owner", none, none, true, false, none,
      none⟩
  element := .message owner
  path := [2]

def codesPlan : Plan where
  field := ⟨4, "codes", .varint, .repeated, .scalar .uint32, none, none, false, true, none, none⟩
  element := .scalar .uint32
  path := [3]

theorem exists_owner :
    ∃ m, registry.messageMarshaller? owner = some m ∧ m.type = owner ∧ m.plans = [idPlan] ∧
      m.layout = .storing owner ["id"] := by
  refine CompilationUnit.exists_marshaller ownerInfo (by decide +kernel) (.head _)
    (by decide +kernel) ?_
  rintro message ⟨⟩
  cbv

theorem exists_firstAccount :
    ∃ m, registry.messageMarshaller? firstAccount = some m ∧ m.type = firstAccount ∧
      m.plans = [namePlan, activePlan] ∧ m.layout = .storing firstAccount ["name", "active"] := by
  refine CompilationUnit.exists_marshaller firstAccountInfo (by decide +kernel)
    (.tail _ (.head _)) (by decide +kernel) ?_
  rintro message ⟨⟩
  cbv

theorem exists_account :
    ∃ m, registry.messageMarshaller? account = some m ∧ m.type = account ∧
      m.plans = [namePlan, activePlan, ownerPlan, codesPlan] ∧
        m.layout = .storing account ["name", "active", "owner", "codes"] := by
  refine CompilationUnit.exists_marshaller accountInfo (by decide +kernel)
    (.tail _ (.tail _ (.head _))) (by decide +kernel) ?_
  rintro message ⟨⟩
  cbv

/-- An account whose owner nests in it, with a retained record. -/
def sample : Instance :=
  .record account
    [some (.string "savings"), some .absent,
      some (.message (.record owner [some (.i32 (-3))] [] .empty)), some (.list [.u32 1, .u32 300])]
    [] ⟨[0x48, 0x01]⟩

theorem wellTyped_owner {levels : Nat} {m : MessageMarshaller} {n : Int32}
    (hm : registry.messageMarshaller? owner = some m) :
    registry.WellTyped levels m (.record owner [some (.i32 n)] [] .empty) := by
  obtain ⟨m', hm', htype, hplans, hlayout⟩ := exists_owner
  obtain rfl := Option.some.inj (hm.symm.trans hm')
  rw [← htype] at hlayout ⊢
  have hid : m.layout.get? (.record m.type [some (.i32 n)] [] .empty) [0] = some (.i32 n) := by
    rw [hlayout]
    exact Layout.get?_storing (by decide)
  have hone : ∀ p ∈ m.plans, p.field.oneof = none := by
    rw [hplans]
    decide
  have hadmits : ∀ P, m.Admits registry P (.record m.type [some (.i32 n)] [] .empty) := by
    refine fun P ↦ ⟨rfl, ?_, ?_, [], ?_, fun r hr ↦ by cases hr⟩
    · rw [hplans, List.forall_mem_singleton]
      exact ⟨_, hid, _, rfl⟩
    · intro p hp q _ g v w hg
      cases (hone p hp).symm.trans hg
    · rw [MessageMarshaller.retained_storing hlayout]
      exact .nil
  have hstores : m.StoresBack (.record m.type [some (.i32 n)] [] .empty) := by
    refine MessageMarshaller.storesBack_of_storing hlayout ?_
    rw [hplans, List.forall_mem_singleton]
    exact ⟨_, hid, fun h ↦ by cases h⟩
  cases levels with
  | zero => exact ⟨hadmits _, hstores⟩
  | succ levels => exact ⟨hadmits _, hstores⟩

theorem get?_sample {k : Nat} (hk : k < 4) :
    (Layout.storing account ["name", "active", "owner", "codes"]).get? sample [k]
      = [some (.string "savings"), some .absent,
        some (.message (.record owner [some (.i32 (-3))] [] .empty)),
        some (.list [.u32 1, .u32 300])][k]?.join :=
  Layout.get?_storing hk

theorem wellTyped_sample {levels : Nat} {m : MessageMarshaller}
    (hm : registry.messageMarshaller? account = some m) :
    registry.WellTyped (levels + 1) m sample := by
  obtain ⟨m', hm', htype, hplans, hlayout⟩ := exists_account
  obtain rfl := Option.some.inj (hm.symm.trans hm')
  have hone : ∀ p ∈ m.plans, p.field.oneof = none := by
    rw [hplans]
    decide
  refine ⟨⟨htype.symm, ?_, ?_, [⟨9, .varint 1⟩], ?_, ?_⟩, ?_⟩
  · rw [hplans]
    simp only [List.forall_mem_cons, List.not_mem_nil, false_implies, implies_true, and_true]
    rw [hlayout]
    refine ⟨⟨_, get?_sample (by decide), _, rfl⟩, ⟨_, get?_sample (by decide), .inl ⟨rfl, rfl⟩⟩,
      ⟨_, get?_sample (by decide), .inr fun inner hinner ↦ wellTyped_owner hinner⟩,
      ⟨_, get?_sample (by decide), _, rfl, ?_⟩⟩
    simp only [List.forall_mem_cons, List.not_mem_nil, false_implies, implies_true, and_true]
    exact ⟨⟨_, rfl⟩, ⟨_, rfl⟩⟩
  · intro p hp q _ g v w hg
    cases (hone p hp).symm.trans hg
  · rw [sample, ← htype, MessageMarshaller.retained_storing (htype ▸ hlayout)]
    exact .cons (by decide +kernel) .nil
  · rw [hplans]
    decide
  · refine MessageMarshaller.storesBack_of_storing (htype ▸ hlayout) ?_
    rw [hplans]
    simp only [List.forall_mem_cons, List.not_mem_nil, false_implies, implies_true, and_true]
    rw [hlayout]
    exact ⟨⟨_, get?_sample (by decide), fun h ↦ by cases h⟩,
      ⟨_, get?_sample (by decide), fun _ ↦ rfl⟩, ⟨_, get?_sample (by decide), fun _ ↦ rfl⟩,
      ⟨_, get?_sample (by decide), fun h ↦ by cases h⟩⟩

end Bank

end ProtoSchema
