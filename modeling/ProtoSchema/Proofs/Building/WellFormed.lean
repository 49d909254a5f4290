import ProtoSchema.Proofs.Building.Declared
import ProtoSchema.Proofs.Codec.Storing
import ProtoSchema.Proofs.Compilation.Members

/-!
# Built descriptors are well formed

The checks of a declaration stand in many places: some belong to one member, some to the members met
before it, some to all fields at once. Here they are put together into what can be relied upon when
a descriptor is there. The path of a binding is what ties a field to its declaration, in the type
itself or in a supertype that is flattened into it, so the owner of a oneof is the type that these
paths lead to.

The types that a field refers to are known by name here. That there are such types is a matter of
the closure.
-/

set_option autoImplicit false

namespace ProtoSchema

open Floating Text

/-! ## What is relied upon -/

/-- A path of member positions leads from a type to a field member of its own, or through its
supertypes to one of theirs. -/
inductive TypeInfo.Leads (env : Environment) : TypeInfo → List Nat → TypeInfo → Member → Prop
  | own {info : TypeInfo} {message : MessageInfo} {k : Nat} {m : Member} {type : FieldType}
      (hmessage : info.message? = some message) (hk : message.members[k]? = some m)
      (hkind : m.kind = .field type) : Leads env info [k] info m
  | inherited {info parent owner : TypeInfo} {message : MessageInfo} {k : Nat} {path : List Nat}
      {m m' : Member} {ref : TypeRef} (hmessage : info.message? = some message)
      (hk : message.members[k]? = some m) (hkind : m.kind = .flatten ref)
      (hinfo : ref.info? env = some parent) (h : Leads env parent path owner m') :
      Leads env info (k :: path) owner m'

/-- What can be relied upon about a message. -/
structure BuiltMessage.WellFormed (b : BuiltMessage) (env : Environment) (info : TypeInfo) :
    Prop where
  /-- The bindings are those of the fields: they lead to the members that the fields came from. -/
  fields : List.Forall₂ (fun f binding ↦ ∃ owner m, info.Leads env binding.path owner m ∧
    f.WellFormed env m) b.descriptor.fields b.bindings
  numbers : (b.descriptor.fields.map (·.number)).Nodup
  names : (b.descriptor.fields.map (·.name)).Nodup
  groups : (b.descriptor.oneofs.map (·.name)).Nodup
  /-- The oneofs are those that fields name. -/
  named : ∀ g, g ∈ b.descriptor.oneofs.map (·.name) ↔ ∃ f ∈ b.descriptor.fields, f.oneof = some g
  oneofs : ∀ o ∈ b.descriptor.oneofs, isIdentifier o.name = true ∧
    (∀ f ∈ b.descriptor.fields, f.name ≠ o.name) ∧
    o.numbers = (b.descriptor.fields.filter (·.oneof == some o.name)).map (·.number)
  /-- The members of a oneof are all declared by one type. -/
  owners : ∀ o ∈ b.descriptor.oneofs, ∃ t, ∀ f binding,
    (f, binding) ∈ b.descriptor.fields.zip b.bindings → f.oneof = some o.name →
    ∀ owner m, info.Leads env binding.path owner m → owner.type = t

/-- What can be relied upon about an enum. -/
structure EnumType.WellFormed (e : EnumType) : Prop where
  nonempty : e.values ≠ []
  identifiers : ∀ v ∈ e.values, isIdentifier v.name = true
  names : (e.values.map (·.name)).Nodup
  numbers : (e.values.map (·.number)).Nodup

/-- What can be relied upon about a built type. -/
def Built.WellFormed (env : Environment) (info : TypeInfo) : Built → Prop
  | message b => b.WellFormed env info
  | enum e => e.WellFormed

/-! ## Paths

A path that leads to a member leads to no other one. So the member that a field came from can be
told from the binding, and with it the type that declares the member. -/

theorem exists_of_mem_leavesFrom {path : List Nat} {index : Nat} {members : List Inlined}
    {leaf : Leaf} (h : leaf ∈ Inlined.leavesFrom path index members) :
    ∃ (k : Nat) (i : Inlined), members[k]? = some i ∧ leaf ∈ i.leaves (path ++ [index + k]) := by
  induction members generalizing index with
  | nil =>
    rw [Inlined.leavesFrom] at h
    exact absurd h List.not_mem_nil
  | cons i rest ih =>
    rw [Inlined.leavesFrom, List.mem_append] at h
    rcases h with h | h
    · exact ⟨0, i, rfl, h⟩
    · obtain ⟨k, j, hj, h⟩ := ih h
      exact ⟨k + 1, j, hj, by rwa [Nat.add_right_comm, Nat.add_assoc] at h⟩

namespace TypeInfo

variable {env : Environment} {info : TypeInfo} {message : MessageInfo}

theorem leads_of_mem_leaves {info : TypeInfo} {message : MessageInfo} {fuel k : Nat}
    {visiting : List TypeId} {base path : List Nat} {i : Inlined} {owner : TypeId} {m : Member}
    (hmessage : info.message? = some message)
    (hi : (inlineMembers env fuel visiting info.type message.members)[k]? = some i)
    (h : Leaf.field path owner m ∈ i.leaves base) :
    ∃ rest declaring, path = base ++ rest ∧ declaring.type = owner ∧
      info.Leads env (k :: rest) declaring m := by
  match i with
  | .field owner' member =>
    rw [Inlined.leaves, List.mem_singleton] at h
    cases h
    obtain ⟨hk, rfl, type, hkind⟩ := field_of_inlineMembers hi
    exact ⟨[], info, (List.append_nil base).symm, rfl, .own hmessage hk hkind⟩
  | .parent member info' message' inner =>
    obtain ⟨hk, ⟨ref, hkind, hinfo, hmessage'⟩, fuel', visiting', hinner⟩ :=
      parent_of_inlineMembers hi
    rw [Inlined.leaves] at h
    obtain ⟨k', j, hj, h⟩ := exists_of_mem_leavesFrom h
    rw [Nat.zero_add] at h
    obtain ⟨rest, declaring, rfl, howner, hleads⟩ :=
      leads_of_mem_leaves hmessage' (hinner ▸ hj) h
    refine ⟨k' :: rest, declaring, ?_, howner, .inherited hmessage hk hkind hinfo hleads⟩
    rw [List.append_assoc, List.singleton_append]
  | .invalid member | .cycle member =>
    rw [Inlined.leaves, List.mem_singleton] at h
    cases h
termination_by sizeOf i
decreasing_by
  have hlt := List.sizeOf_lt_of_mem (List.mem_of_getElem? hj)
  simp only [Inlined.parent.sizeOf_spec]
  omega

theorem leads_of_mem {path : List Nat} {owner : TypeId} {m : Member}
    (hmessage : info.message? = some message)
    (h : Leaf.field path owner m ∈ info.leaves env message) :
    ∃ declaring, declaring.type = owner ∧ info.Leads env path declaring m := by
  obtain ⟨k, i, hi, h⟩ := exists_of_mem_leavesFrom h
  obtain ⟨rest, declaring, rfl, howner, hleads⟩ := leads_of_mem_leaves hmessage hi h
  rw [Nat.zero_add, List.nil_append, List.singleton_append]
  exact ⟨declaring, howner, hleads⟩

/-- A path leads to one member. -/
theorem Leads.unique {path : List Nat} {owner owner' : TypeInfo} {m m' : Member}
    (h : info.Leads env path owner m) (h' : info.Leads env path owner' m') :
    owner = owner' ∧ m = m' := by
  induction h with
  | own hmessage hk hkind =>
    cases h' with
    | own hmessage' hk' hkind' =>
      cases hmessage.symm.trans hmessage'
      exact ⟨rfl, Option.some.inj (hk.symm.trans hk')⟩
    | inherited hmessage' hk' hkind' hinfo' hleads => cases hleads
  | inherited hmessage hk hkind hinfo hleads ih =>
    cases h' with
    | own hmessage' hk' hkind' => cases hleads
    | inherited hmessage' hk' hkind' hinfo' hleads' =>
      cases hmessage.symm.trans hmessage'
      cases hk.symm.trans hk'
      cases hkind.symm.trans hkind'
      cases hinfo.symm.trans hinfo'
      exact ih hleads'

end TypeInfo

/-! ## Oneofs

The names of oneofs are collected from the fields in the order in which they first come, each
once. -/

section

variable {env : Environment} {resolve : Resolver} {typePath : String} {info : TypeInfo}

theorem ne_of_checkGroupNames {fields members : List Field}
    (h : checkGroupNames typePath fields members = .ok ()) :
    ∀ f ∈ members, ∀ g, f.oneof = some g → ∀ f' ∈ fields, f'.name ≠ g := by
  induction members with
  | nil => exact fun f hf ↦ absurd hf List.not_mem_nil
  | cons f rest ih =>
    rw [checkGroupNames] at h
    split at h
    · next hnone =>
      refine List.forall_mem_cons.2 ⟨fun g hg ↦ ?_, ih h⟩
      cases hnone.symm.trans hg
    · next group hgroup =>
      obtain ⟨hfree, h⟩ := ite_error_eq_ok.1 h
      refine List.forall_mem_cons.2 ⟨fun g hg f' hf' hname ↦ hfree ?_, ih h⟩
      cases hgroup.symm.trans hg
      exact List.any_eq_true.2 ⟨f', hf', beq_iff_eq.2 hname⟩

theorem mem_groupNames {fields : List Field} {g : String} :
    g ∈ groupNames fields ↔ ∃ f ∈ fields, f.oneof = some g := by
  induction fields with
  | nil => simp [groupNames]
  | cons f rest ih =>
    rw [groupNames, List.exists_mem_cons_iff]
    split
    · next hnone => simp [ih, hnone]
    · next group hgroup =>
      rw [List.mem_cons, List.mem_filter, ih, hgroup, Option.some.injEq]
      by_cases heq : g = group
      · simp [heq]
      · simp [heq, Ne.symm heq]

theorem nodup_groupNames (fields : List Field) : (groupNames fields).Nodup := by
  induction fields with
  | nil => exact List.nodup_nil
  | cons f rest ih =>
    rw [groupNames]
    split
    · exact ih
    · next group _ =>
      refine List.nodup_cons.2 ⟨fun hmem ↦ ?_, ih.filter _⟩
      have hne := (List.mem_filter.1 hmem).2
      simp at hne

theorem names_groupFields (fields : List Field) :
    (groupFields fields).map (·.name) = groupNames fields := by
  rw [groupFields, List.map_map]
  exact List.map_id _

/-! ## Built types

What the checks of all fields leave is put together with what each field has passed on its own. The
values of an enum are compared with those before them, and in the end with all others. -/

theorem exists_member_of_checkLeaves {message : MessageInfo} {groups : List (String × TypeId)}
    {declared : List DeclaredField} (hmessage : info.message? = some message)
    (h : checkLeaves env resolve typePath groups (info.leaves env message) = .ok declared)
    {d : DeclaredField} (hd : d ∈ declared) :
    ∃ owner m, info.Leads env d.binding.path owner m ∧ owner.type = d.owner ∧
      d.field.WellFormed env m := by
  obtain ⟨leaf, hleaf, path, m, rfl, hfield⟩ :=
    exists_of_forall₂_right (forall₂_of_checkLeaves h) hd
  obtain ⟨owner, howner, hleads⟩ := TypeInfo.leads_of_mem hmessage hleaf
  have hpath : d.binding.path = path := (Member.toField_sound hfield).2.1
  exact ⟨owner, m, hpath ▸ hleads, howner, Member.wellFormed_of_toField hfield⟩

theorem wellFormed_of_buildMessage {message : MessageInfo} {name : String} {b : BuiltMessage}
    (hmessage : info.message? = some message)
    (h : buildMessage env resolve info message name = .ok b) : b.WellFormed env info := by
  obtain ⟨-, declared, hdeclared, hdistinct, hgroups, rfl⟩ := buildMessage_eq_ok.1 h
  obtain ⟨hdiffers, -⟩ := pairwise_of_checkDistinct hdistinct
  obtain ⟨owners, -, howners⟩ := exists_owners_of_checkLeaves hdeclared
  have hnamed : ∀ o ∈ groupFields (declared.map (·.field)),
      ∃ d ∈ declared, d.field.oneof = some o.name := by
    intro o ho
    have hname := List.mem_map_of_mem (f := (·.name)) ho
    rw [names_groupFields, mem_groupNames] at hname
    obtain ⟨f, hf, hg⟩ := hname
    obtain ⟨d, hd, rfl⟩ := List.mem_map.1 hf
    exact ⟨d, hd, hg⟩
  exact {
    fields := by
      rw [List.forall₂_map_left_iff, List.forall₂_map_right_iff, List.forall₂_same]
      intro d hd
      obtain ⟨owner, m, hleads, -, hfield⟩ := exists_member_of_checkLeaves hmessage hdeclared hd
      exact ⟨owner, m, hleads, hfield⟩
    numbers := by
      rw [List.nodup_iff_pairwise_ne, List.pairwise_map]
      exact hdiffers.imp And.left
    names := by
      rw [List.nodup_iff_pairwise_ne, List.pairwise_map]
      exact hdiffers.imp And.right
    groups := by
      rw [names_groupFields]
      exact nodup_groupNames _
    named := by
      intro g
      rw [names_groupFields]
      exact mem_groupNames
    oneofs := by
      intro o ho
      obtain ⟨d, hd, hg⟩ := hnamed o ho
      obtain ⟨owner, m, -, -, hfield⟩ := exists_member_of_checkLeaves hmessage hdeclared hd
      have hfree := ne_of_checkGroupNames hgroups _ (List.mem_map_of_mem hd) _ hg
      obtain ⟨g, -, rfl⟩ := List.mem_map.1 ho
      exact ⟨(hfield.oneof.2 _ hg).1, hfree, rfl⟩
    owners := by
      intro o ho
      obtain ⟨d, hd, hg⟩ := hnamed o ho
      -- The type that declares one of the members is recorded as the owner of all of them.
      refine ⟨d.owner, fun f b hfb hg' owner m hleads ↦ ?_⟩
      rw [List.zip_map', List.mem_map] at hfb
      obtain ⟨d', hd', heq⟩ := hfb
      cases heq
      obtain ⟨owner', m', hleads', howner, -⟩ :=
        exists_member_of_checkLeaves hmessage hdeclared hd'
      obtain ⟨rfl, -⟩ := hleads.unique hleads'
      rw [howner]
      exact Option.some.inj ((howners d' hd' _ hg').symm.trans (howners d hd _ hg)) }

theorem values_of_checkVariants {earlier values : List EnumValue} {variants : List Variant}
    (h : checkVariants typePath earlier variants = .ok values) :
    values = earlier.reverse ++ variants.map (fun v ↦ ⟨v.valueName, v.number, v.docs⟩) ∧
      (∀ v ∈ variants, isIdentifier v.valueName = true ∧
        ∀ e ∈ earlier, e.name ≠ v.valueName ∧ e.number ≠ v.number) ∧
      variants.Pairwise fun v w ↦ v.valueName ≠ w.valueName ∧ v.number ≠ w.number := by
  induction variants generalizing earlier with
  | nil =>
    cases h
    exact ⟨(List.append_nil _).symm, fun v hv ↦ absurd hv List.not_mem_nil, .nil⟩
  | cons v rest ih =>
    rw [checkVariants] at h
    obtain ⟨hidentifier, h⟩ := ite_error_eq_ok.1 h
    obtain ⟨hname, h⟩ := ite_error_eq_ok.1 h
    obtain ⟨hnumber, h⟩ := ite_error_eq_ok.1 h
    obtain ⟨rfl, hrest, hpairwise⟩ := ih h
    rw [Bool.not_eq_true, List.any_eq_false] at hname hnumber
    rw [Bool.not_eq_true, Bool.not_eq_false'] at hidentifier
    refine ⟨by simp, List.forall_mem_cons.2 ⟨⟨hidentifier, fun e he ↦ ?_⟩, fun w hw ↦ ?_⟩,
      .cons (fun w hw ↦ ?_) hpairwise⟩
    · have hn := hname e he
      have hm := hnumber e he
      exact ⟨by simpa using hn, by simpa using hm⟩
    · obtain ⟨hw', hearlier⟩ := hrest w hw
      exact ⟨hw', fun e he ↦ hearlier e (List.mem_cons_of_mem _ he)⟩
    · exact (hrest w hw).2 _ List.mem_cons_self

theorem wellFormed_of_buildEnum {variants : List Variant} {name : String} {e : EnumType}
    (h : buildEnum info variants name = .ok e) : e.WellFormed := by
  obtain ⟨hnonempty, values, hvalues, rfl⟩ := buildEnum_eq_ok.1 h
  obtain ⟨rfl, hnames, hpairwise⟩ := values_of_checkVariants hvalues
  rw [List.reverse_nil, List.nil_append]
  refine ⟨?_, ?_, ?_, ?_⟩
  · intro hnil
    exact hnonempty (List.map_eq_nil_iff.1 hnil)
  · intro value hvalue
    obtain ⟨v, hv, rfl⟩ := List.mem_map.1 hvalue
    exact (hnames v hv).1
  · rw [List.map_map, List.nodup_iff_pairwise_ne, List.pairwise_map]
    exact hpairwise.imp And.left
  · rw [List.map_map, List.nodup_iff_pairwise_ne, List.pairwise_map]
    exact hpairwise.imp And.right

/-- **Built types are well formed**, whatever supertypes are flattened into them and whatever names
the resolver gives. -/
theorem wellFormed_of_build {ref : TypeRef} {built : Built}
    (h : (build env resolve ref).result = .ok built) :
    ∃ info, ref.info? env = some info ∧ built.WellFormed env info := by
  cases hinfo : ref.info? env with
  | none =>
    unfold build at h
    rw [hinfo] at h
    cases h
  | some info =>
    refine ⟨info, rfl, ?_⟩
    obtain ⟨resolved, -, ⟨message, b, hkind, rfl, hb⟩ | ⟨variants, e, hkind, rfl, he⟩⟩ :=
      build_eq_ok hinfo h
    · have hmessage : info.message? = some message := by
        rw [TypeInfo.message?, hkind]
      exact wellFormed_of_buildMessage hmessage hb
    · exact wellFormed_of_buildEnum he

/-- The message, if one was built. -/
def Built.message? : Built → Option BuiltMessage
  | message b => some b
  | enum _ => none

theorem exists_of_message? {ref : TypeRef} {α : Type} {view : BuiltMessage → α} {a : α}
    (h : ((build env resolve ref).result.toOption.bind Built.message?).map view = some a) :
    ∃ b, (build env resolve ref).result = .ok (.message b) ∧ view b = a := by
  obtain ⟨b, hb, hview⟩ := Option.map_eq_some_iff.1 h
  obtain ⟨built, hbuilt, hmessage⟩ := Option.bind_eq_some_iff.1 hb
  cases built with
  | enum e => cases hmessage
  | message b' =>
    cases hmessage
    exact ⟨b, toOption_eq_some.1 hbuilt, hview⟩

end

namespace Theatre

def mood : TypeId := ⟨"theatre::Mood"⟩

def event : TypeId := ⟨"theatre::Event"⟩

def play : TypeId := ⟨"theatre::Play"⟩

/-- Plays are events, which take place somewhere or in a room. -/
def environment : Environment :=
  [{ type := mood, path := mood.name
     kind := .enum [{ name := "Sad", number := 0 }, { name := "Glad", number := 1 }] },
    .storing event
      [({ name := "place", kind := .field (.optional (.scalar .string)), getter := ·
          number := some 1, oneof := some "venue" }),
        ({ name := "room", kind := .field (.optional (.scalar .uint32)), getter := ·
           number := some 2, oneof := some "venue" })],
    .storing play
      [({ name := "event", kind := .flatten (.of event), getter := · }),
        ({ name := "acts", kind := .field (.repeated (.scalar .int32)), getter := ·
           number := some 3, scalar := some .sint32 }),
        ({ name := "roles", kind := .field (.map (.scalar .string) (.scalar .int64)), getter := ·
           number := some 4 }),
        ({ name := "mood", kind := .field (.enum (.of mood) false), getter := ·
           number := some 5, default := some (.text "Glad") }),
        ({ name := "price", kind := .field (.scalar .int32), getter := ·
           number := some 6, default := some (.int (-1)) })]]

def resolve : Resolver := fun _ ↦ some ⟨"theatre.Mood", .enum⟩

end Theatre

/-- The descriptor of plays. -/
theorem Theatre.wellFormed_of_build_play : ∃ b info,
    (build environment resolve (.of play)).result = .ok (.message b) ∧
    b.descriptor.fields.map (fun f ↦ (f.number, f.packed)) =
      [(1, false), (2, false), (3, true), (4, false), (5, false), (6, false)] ∧
    b.descriptor.oneofs = [⟨"venue", [1, 2]⟩] ∧
    b.bindings.map (·.path) = [[0, 0], [0, 1], [1], [2], [3], [4]] ∧
    (TypeRef.of play).info? environment = some info ∧ b.WellFormed environment info := by
  have hbuilds : ((build environment resolve (.of play)).result.toOption.bind Built.message?).map
      (fun b ↦ (b.descriptor.fields.map (fun f ↦ (f.number, f.packed)), b.descriptor.oneofs,
        b.bindings.map (·.path))) =
      some ([(1, false), (2, false), (3, true), (4, false), (5, false), (6, false)],
        [⟨"venue", [1, 2]⟩], [[0, 0], [0, 1], [1], [2], [3], [4]]) := by
    decide +kernel
  obtain ⟨b, hb, hparts⟩ := exists_of_message? hbuilds
  obtain ⟨hfields, hparts⟩ := Prod.mk.inj hparts
  obtain ⟨honeofs, hpaths⟩ := Prod.mk.inj hparts
  obtain ⟨info, hinfo, hwellFormed⟩ := wellFormed_of_build hb
  exact ⟨b, info, hb, hfields, honeofs, hpaths, hinfo, hwellFormed⟩

namespace Scales

def scales : TypeId := ⟨"scales::Scales"⟩

/-- A 32-bit number that is to be `1e300` if nothing is known. -/
def environment : Environment :=
  [.storing scales
    [({ name := "weight", kind := .field (.optional (.scalar .float)), getter := ·
        number := some 1, default := some (.float ⟨0x7e37e43c8800759c⟩) })]]

def resolve : Resolver := fun _ ↦ some ⟨"scales.Scales", .message⟩

end Scales

/-- A default may be a finite number that is out of range for its field. -/
theorem Scales.default_not_inRange : ∃ b f x,
    (build environment resolve (.of scales)).result = .ok (.message b) ∧
    b.descriptor.fields = [f] ∧ f.type = .scalar .float ∧ f.default = some (.float x) ∧
    x.isFinite = true ∧ Format.single.read x.toBinary32.bits.toNat = .infinite false := by
  have hbuilds : ((build environment resolve (.of scales)).result.toOption.bind
      Built.message?).map (fun b ↦ b.descriptor.fields.map fun f ↦ (f.type, f.default)) =
      some [(.scalar .float, some (.float ⟨0x7e37e43c8800759c⟩))] := by
    decide +kernel
  obtain ⟨b, hb, hfields⟩ := exists_of_message? hbuilds
  obtain ⟨f, hf, hparts⟩ := List.map_eq_singleton_iff.1 hfields
  obtain ⟨htype, hdefault⟩ := Prod.mk.inj hparts
  exact ⟨b, f, _, hb, hf, htype, hdefault, by decide +kernel, by decide +kernel⟩

end ProtoSchema
