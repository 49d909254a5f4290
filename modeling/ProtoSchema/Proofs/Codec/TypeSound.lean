import ProtoSchema.Proofs.Codec.Storing
import ProtoSchema.Proofs.Compilation.Members
import ProtoSchema.Samples

/-!
# Decoding is type-sound

A factory may rely on the slots that it is handed. Every slot holds a value of the shape that its
member declares, a flattened member's an instance of the supertype, and an empty slot belongs to an
optional field which declares no default and of whose accepted records none is left. So whatever a
factory takes out of its slots at the members' native types, the only thing that can go wrong is a
number that a native enum does not declare.

This holds of the factory of the message itself and of those of the supertypes that it inlines. What
is assumed is that factories build instances of their own types. A factory that does not would break
the factories that are handed what it built.
-/

set_option autoImplicit false

namespace ProtoSchema

open Wire

/-! ## What factories receive -/

/-- What may stand in the slot of the member at a path: a value of the declared shape, or nothing,
if the member is an optional field which declares no default and of whose accepted records none is
left. A bare message is never optional. -/
def Member.Receives (member : Member) (m : MessageMarshaller) (effects : List Effect)
    (path : List Nat) : Option Value → Prop
  | some v => member.type.Holds v
  | none => (∃ type, member.kind = .field type ∧ ∀ ref, type ≠ .message ref) ∧
      member.default = none ∧ ∃ k p, m.plans[k]? = some p ∧ p.path = path ∧
        p.field.cardinality = .optional ∧ m.Clears effects k

/-- A member may be taken from a slot that it may receive. -/
theorem Member.Receives.takesFrom {member : Member} {m : MessageMarshaller} {effects : List Effect}
    {path : List Nat} {slot : Option Value} (h : member.Receives m effects path slot) {s : Storage}
    (hs : s.Suits member.kind) (hvalues : s.DeclaresValues) (k : Nat) : s.TakesFrom k slot := by
  refine Storage.takesFrom_of_holds hs hvalues ?_ ?_
  · rintro v rfl
    exact h
  · rintro rfl
    obtain ⟨⟨type, hkind, hmessage⟩, -⟩ := h
    rw [Member.type, hkind]
    exact hmessage

namespace MessageMarshaller

/-- An input is read to its end, and `values` is what the factory of the layout at a path is handed
for it: that of the message itself, whose path is empty, or of a supertype that it inlines. The
message alone is handed the unknown fields. -/
structure Reaches (m : MessageMarshaller) (reg : Registry) (nested : NestedReader) (input : Bytes)
    (records : List (Bytes × Effect)) (path : List Nat) (l : Layout) (values : FieldValues) :
    Prop where
  reads : ReadTrace (m.readRecord reg nested) input records
  contains : m.layout.Contains path l
  fills : ∃ hand slots, m.handing (records.map (·.2)) = .ok hand ∧
    Layout.assembleParts hand path 0 l.parts = .ok slots ∧
    values = ⟨l.typePath, l.names, slots,
      if path = [] then ⟨(records.map (·.2)).flatMap (·.retained)⟩ else .empty⟩

variable {m : MessageMarshaller} {reg : Registry} {nested : NestedReader} {input : Bytes}
  {records : List (Bytes × Effect)} {path : List Nat} {l : Layout} {values : FieldValues}

/-- Where decoding reaches the factory of the message, it comes to what the factory makes of the
values. -/
theorem Reaches.result_decodeWith (h : m.Reaches reg nested input records [] l values) :
    (m.decodeWith reg nested input).result = (l.factory values).mapError .factory := by
  obtain ⟨hand, slots, hhand, hslots, rfl⟩ := h.fills
  obtain rfl := h.contains.eq_of_nil
  rw [result_decodeWith_of_handing h.reads hhand, Layout.assemble_eq, hslots, ok_bind, if_pos rfl]

theorem exists_reaches {i : Instance} (h : (m.decodeWith reg nested input).result = .ok i) :
    ∃ records values, m.Reaches reg nested input records [] m.layout values := by
  obtain ⟨records, hand, hdecodes⟩ := decodeWith_eq_ok.1 h
  obtain ⟨slots, hslots, -⟩ := Layout.factory_of_assemble hdecodes.builds
  exact ⟨records, _, hdecodes.reads, .self, hand, slots, hdecodes.hands, hslots, rfl⟩

end MessageMarshaller

section

variable {m : MessageMarshaller} {env : Environment} {resolve : Resolver} {info : TypeInfo}
  {message : MessageInfo} {reg : Registry} {nested : NestedReader} {input : Bytes}
  {records : List (Bytes × Effect)} {hand : List Nat → Option Value} {member : Member}

theorem MessageMarshaller.MadeOf.receives_field (hm : m.MadeOf env resolve info message)
    (hnested : nested.ReadsOwn reg) (hreads : ReadTrace (m.readRecord reg nested) input records)
    (hhand : m.handing (records.map (·.2)) = .ok hand) {type : FieldType}
    (hkind : member.kind = .field type) {path : List Nat} {owner : TypeId}
    (hleaf : Leaf.field path owner member ∈ info.leaves env message) :
    member.Receives m (records.map (·.2)) path (hand path) := by
  obtain ⟨k, p, b, hp, rfl, hfield, hdescribes⟩ := hm.exists_plan hleaf
  obtain ⟨hshape, hmessage, hdefault⟩ := Member.holds_of_toField hfield hdescribes
  obtain ⟨hholds, hnone⟩ := holds_of_handing hm.wellFormed hnested hreads hhand hp
  cases hslot : hand p.path with
  | some v => exact hshape v (hholds v hslot)
  | none =>
    obtain ⟨hc, hd, hclears⟩ := hnone hslot
    have hmessage := hmessage hc
    rw [Member.type, hkind] at hmessage
    exact ⟨⟨type, hkind, hmessage⟩, hdefault hd, k, p, hp, rfl, hc, hclears⟩

theorem Member.receives_flatten {ref : TypeRef} (hkind : member.kind = .flatten ref)
    {info' : TypeInfo} (hinfo : ref.info? env = some info') {parent : Layout}
    (hparent : parent.factory.Builds info'.type) {path : List Nat} {slot : Option Value}
    {getter : Getter} (hslot : (Part.flatten getter parent).Fills hand path slot) :
    member.Receives m (records.map (·.2)) path slot := by
  obtain ⟨i, hi, rfl⟩ := hslot
  obtain ⟨slots, -, hbuild⟩ := Layout.factory_of_assemble hi
  refine show member.type.Holds (.message i) from ?_
  rw [Member.type, hkind]
  exact ⟨i, rfl, (hparent _ i hbuild).trans (TypeRef.type_of_info? hinfo)⟩

end

theorem MessageMarshaller.Reaches.receives {m : MessageMarshaller} {env : Environment}
    (hm : m.CompiledFrom env) (henv : ∀ info ∈ env, info.BuildsOwn) {reg : Registry}
    {nested : NestedReader} (hnested : nested.ReadsOwn reg) {input : Bytes}
    {records : List (Bytes × Effect)} {path : List Nat} {l : Layout} {values : FieldValues}
    (h : m.Reaches reg nested input records path l values) :
    ∃ info message, info ∈ env ++ builtinAdapters ∧ info.message? = some message ∧
      l.factory = message.factory ∧ (path = [] → info.type = m.type) ∧
      values.names = message.members.map (·.name) ∧
      values.slots.length = message.members.length ∧
      ∀ (k : Nat) (member : Member), message.members[k]? = some member →
        ∃ slot, values.slots[k]? = some slot ∧
          member.Receives m (records.map (·.2)) (path ++ [k]) slot := by
  obtain ⟨ref, resolve, info, message, hinfo, hmade⟩ := hm.exists_madeOf
  have hmem := TypeRef.mem_of_info? hinfo
  obtain ⟨i, msg, members, hl, hself, -⟩ := h.contains.exists_madeOf (hmade.layout_madeOf hmem)
  obtain ⟨hand, slots, hhand, hslots, rfl⟩ := h.fills
  obtain ⟨hlen, hfills⟩ := Layout.fills_of_assembleParts hslots
  refine ⟨i, msg, hl.mem, hl.kind, hl.factory, ?_, hl.names, hlen.trans hl.length_eq,
    fun k member hk ↦ ?_⟩
  · rintro rfl
    rw [(hself rfl).1, hmade.type]
  · rcases hl.field_or_parent hk with ⟨getter, type, hkind, hpart, hleaf⟩ |
      ⟨getter, parent, ref', info', message', inner, hkind, hinfo', hpart, hparent⟩
    · obtain ⟨slot, hslot, hfill⟩ := hfills k _ hpart
      rw [Nat.zero_add] at hfill
      obtain rfl : slot = hand (path ++ [k]) := hfill
      exact ⟨_, hslot, hmade.receives_field hnested h.reads hhand hkind hleaf⟩
    · obtain ⟨slot, hslot, hfill⟩ := hfills k _ hpart
      rw [Nat.zero_add] at hfill
      have hbuilds := TypeInfo.buildsOwn_of_mem henv hparent.mem message' hparent.kind
      rw [← hparent.factory] at hbuilds
      exact ⟨slot, hslot, Member.receives_flatten hkind hinfo' hbuilds hfill⟩

/-- **Decoding is type-sound.** Let a compiled message type be decoded through any registry, at any
level of nesting, up to the factory of the type or of a supertype that it inlines. Every member of
the described type receives what its slot holds, and may be taken from it in every way in which a
member that is declared so may be held. -/
theorem receives_of_reaches {m : MessageMarshaller} {env : Environment} (hm : m.CompiledFrom env)
    (henv : ∀ info ∈ env, info.BuildsOwn) {reg : Registry} (hreg : reg.BuildsOwn) {levels : Nat}
    {input : Bytes} {records : List (Bytes × Effect)} {path : List Nat} {l : Layout}
    {values : FieldValues}
    (h : m.Reaches reg (reg.nestedAt levels) input records path l values) :
    ∃ info message, info ∈ env ++ builtinAdapters ∧ info.message? = some message ∧
      l.factory = message.factory ∧
      (path = [] → info.type = m.type ∧
        (reg.decodeAt levels m input).result = (message.factory values).mapError .factory) ∧
      values.names = message.members.map (·.name) ∧
      values.slots.length = message.members.length ∧
      ∀ (k : Nat) (member : Member), message.members[k]? = some member →
        ∃ slot, values.slots[k]? = some slot ∧
          member.Receives m (records.map (·.2)) (path ++ [k]) slot ∧
          ∀ s : Storage, s.Suits member.kind → s.DeclaresValues → s.TakesFrom k slot := by
  obtain ⟨info, message, hmem, hmessage, hfactory, hself, hnames, hlen, hmembers⟩ :=
    h.receives hm henv (hreg.readsOwn levels)
  refine ⟨info, message, hmem, hmessage, hfactory, ?_, hnames, hlen, fun k member hk ↦ ?_⟩
  · rintro rfl
    refine ⟨hself rfl, ?_⟩
    rw [reg.decodeAt_eq, h.result_decodeWith, hfactory]
  · obtain ⟨slot, hslot, hreceives⟩ := hmembers k member hk
    exact ⟨slot, hslot, hreceives, fun s hs hv ↦ hreceives.takesFrom hs hv k⟩

/-! ## Compiled registries

That factories build instances of their own types is an assumption about the descriptions of a unit.
A registry that was made by compiling units has it if each of them has. -/

theorem Registry.BuildsOwn.commit {u : CompilationUnit} {env : Environment}
    {earlier reg reg' : Registry} {occasion : Nat} {p : Prepared} (hreg : reg.BuildsOwn)
    (henv : ∀ info ∈ env, info.BuildsOwn)
    (hprepare : (u.prepare env earlier occasion).result = .ok p)
    (hcommit : (p.commit reg).result = .ok reg') : reg'.BuildsOwn := by
  intro type m hm
  rcases Prepared.describes_of_commit hprepare hcommit hm with
    hold | ⟨ref, rfl, info, message, hinfo, hmessage, hlayout⟩
  · exact hreg type m hold
  · obtain ⟨parts, -, hlayout⟩ := bind_eq_ok.1 hlayout
    rw [← Except.ok.inj hlayout, ← TypeRef.type_of_info? hinfo]
    exact TypeInfo.buildsOwn_of_mem henv (TypeRef.mem_of_info? hinfo) message hmessage

section

variable {u : CompilationUnit} {env : Environment}

theorem CompilationUnit.buildsOwn_registry (henv : ∀ info ∈ env, info.BuildsOwn) :
    (u.registry env).BuildsOwn := by
  have hempty : Registry.empty.BuildsOwn := by
    intro type m hm
    cases hm
  rcases u.registry_eq with h | ⟨p, hprepare, hcommit⟩
  · rw [h]
    exact hempty
  · exact hempty.commit henv hprepare hcommit

theorem CompilationUnit.compiledFrom_registry {t : TypeId} {m : MessageMarshaller}
    (hm : (u.registry env).messageMarshaller? t = some m) : m.CompiledFrom env := by
  rcases u.registry_eq with h | ⟨p, hprepare, hcommit⟩
  · rw [h] at hm
    cases hm
  · exact (Prepared.compiledFrom_of_commit hprepare hcommit hm).resolve_left fun h ↦ by cases h

end

/-! ## Records

A record is described by the native types of its members, and its factory takes each slot at the
type of the member. So for records nothing has to be assumed about factories, and of the ways in
which a factory may fail there is only one left. -/

/-- What else is declared about the member leaves its kind alone, and every enum that it may hold
declares a value. -/
def RecordMember.Regular (m : RecordMember) : Prop :=
  (∀ member, (m.declare member).kind = member.kind) ∧ m.storage.DeclaresValues

/-- Every member is regular. -/
def RecordType.Regular (r : RecordType) : Prop := ∀ m ∈ r.members, m.Regular

theorem RecordType.Regular.exists_member {r : RecordType} (h : r.Regular) {k : Nat}
    {m : RecordMember} (hk : r.members[k]? = some m) :
    ∃ member, r.info.members[k]? = some member ∧ m.storage.Suits member.kind := by
  refine ⟨_, by rw [RecordType.info, List.getElem?_mapIdx, hk, Option.map_some], ?_⟩
  rw [(h m (List.mem_of_getElem? hk)).1]
  exact m.storage.suits_kind

/-- What is described, if it is a message, is a record type, and as the record type describes
itself. -/
def TypeInfo.DescribesRecord (info : TypeInfo) : Prop :=
  ∀ message, info.message? = some message → ∃ r : RecordType, r.Regular ∧ r.type = info.type ∧
    message = r.info

theorem TypeInfo.DescribesRecord.buildsOwn {info : TypeInfo} (h : info.DescribesRecord) :
    info.BuildsOwn := by
  intro message hmessage
  obtain ⟨r, -, htype, rfl⟩ := h message hmessage
  rw [← htype]
  exact r.builds

/-- **Factories of records only ever miss a number.** Where decoding reaches the factory of a record
type, of the message itself or of a supertype that it inlines, the factory fails only because a
native enum does not declare a number. -/
theorem RecordType.isUnknownNumber_of_reaches {m : MessageMarshaller} {env : Environment}
    (hm : m.CompiledFrom env) (henv : ∀ info ∈ env, info.DescribesRecord) {reg : Registry}
    (hreg : reg.BuildsOwn) {levels : Nat} {input : Bytes} {records : List (Bytes × Effect)}
    {path : List Nat} {l : Layout} {values : FieldValues}
    (h : m.Reaches reg (reg.nestedAt levels) input records path l values) {e : FactoryError}
    (he : l.factory values = .error e) :
    e.IsUnknownNumber ∨ ∃ info ∈ builtinAdapters, ∃ message, info.message? = some message ∧
      l.factory = message.factory := by
  obtain ⟨info, message, hmem, hmessage, hfactory, -, -, -, hmembers⟩ :=
    h.receives hm (fun info hinfo ↦ (henv info hinfo).buildsOwn) (hreg.readsOwn levels)
  rcases List.mem_append.1 hmem with hinfo | hinfo
  · obtain ⟨r, hr, -, rfl⟩ := henv info hinfo message hmessage
    rw [hfactory] at he
    refine .inl (r.isUnknownNumber_of_factory (fun k member hk ↦ ?_) he)
    obtain ⟨declared, hdeclared, hs⟩ := hr.exists_member hk
    obtain ⟨slot, hslot, hreceives⟩ := hmembers k declared hdeclared
    exact ⟨slot, hslot, hreceives.takesFrom hs (hr member (List.mem_of_getElem? hk)).2 k⟩
  · exact .inr ⟨info, hinfo, message, hmessage, hfactory⟩

namespace Shop

open Samples

/-- A record that inlines another one. -/
def environment : Environment :=
  [recordInfo (person "shop") none none, recordInfo (namedEntity "shop") none none]

def registry : Registry :=
  CompilationUnit.registry
    { fileName := "shop.proto", requested := [.of (namedEntity "shop").type] } environment

theorem describesRecord : ∀ info ∈ environment, info.DescribesRecord := by
  have hperson : (person "shop").Regular := by
    rintro m (_ | ⟨_, _ | ⟨_, ⟨⟩⟩⟩) <;> exact ⟨fun _ ↦ rfl, trivial⟩
  have hnamed : (namedEntity "shop").Regular := by
    rintro m (_ | ⟨_, _ | ⟨_, ⟨⟩⟩⟩) <;> exact ⟨fun _ ↦ rfl, trivial⟩
  rintro info (_ | ⟨_, _ | ⟨_, ⟨⟩⟩⟩) <;> rintro message ⟨⟩
  · exact ⟨_, hperson, rfl, rfl⟩
  · exact ⟨_, hnamed, rfl, rfl⟩

/-- A person without a name, with two tags. -/
def input : Bytes := [0x12, 0x01, 0x61, 0x08, 0x07, 0x12, 0x01, 0x62]

end Shop

/-- The members of the record receive what the input leaves for them. -/
theorem Shop.receives_input : ∃ m records values, m.CompiledFrom environment ∧
    (∀ info ∈ environment, info.BuildsOwn) ∧ registry.BuildsOwn ∧
    m.Reaches registry (registry.nestedAt nestingLimit) input records [] m.layout values ∧
    ∃ info message, info ∈ environment ++ builtinAdapters ∧ info.message? = some message ∧
      m.layout.factory = message.factory ∧ info.type = m.type ∧
      (registry.decodeAt nestingLimit m input).result
        = (message.factory values).mapError .factory ∧
      values.names = message.members.map (·.name) ∧
      values.slots.length = message.members.length ∧
      ∀ (k : Nat) (member : Member), message.members[k]? = some member →
        ∃ slot, values.slots[k]? = some slot ∧
          member.Receives m (records.map (·.2)) [k] slot ∧
          ∀ s : Storage, s.Suits member.kind → s.DeclaresValues → s.TakesFrom k slot := by
  have hall : (registry.messageMarshaller? (Samples.namedEntity "shop").type).map (fun m ↦
      (registry.decodeAt nestingLimit m input).result.toOption.isSome) = some true := by
    decide +kernel
  obtain ⟨m, hm, hdecode⟩ := Option.map_eq_some_iff.1 hall
  obtain ⟨i, hi⟩ := Option.isSome_iff_exists.1 hdecode
  have hi := toOption_eq_some.1 hi
  rw [Registry.decodeAt_eq] at hi
  obtain ⟨records, values, hreaches⟩ := MessageMarshaller.exists_reaches hi
  have hfrom : m.CompiledFrom environment := CompilationUnit.compiledFrom_registry hm
  have henv : ∀ info ∈ environment, info.BuildsOwn :=
    fun info hinfo ↦ (describesRecord info hinfo).buildsOwn
  have hreg : registry.BuildsOwn := CompilationUnit.buildsOwn_registry henv
  obtain ⟨info, message, hmem, hmessage, hfactory, hself, hmembers⟩ :=
    receives_of_reaches hfrom henv hreg hreaches
  obtain ⟨htype, hresult⟩ := hself rfl
  exact ⟨m, records, values, hfrom, henv, hreg, hreaches, info, message, hmem, hmessage, hfactory,
    htype, hresult, hmembers⟩

end ProtoSchema
