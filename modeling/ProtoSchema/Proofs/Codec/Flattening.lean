import ProtoSchema.Proofs.Building.Spreading
import ProtoSchema.Proofs.Codec.Accepting

/-!
# Flattening is transparent

A type may be declared without its supertypes, with their members in the places of the members that
flatten them. It then has the same fields, instances of which the same values are read are written
as the same bytes, and whatever an input brings is handed over alike.

Four things have to agree for this: the paths that following members comes to, the plans that keep
them, the layout that reads what stands at a path, and the layout that asks its factories from the
inside out. They agree because both types have the plans of the same leaves. All that is left to the
layouts is to find, at the path of a plan, the member that the plan was made of.
-/

set_option autoImplicit false

namespace ProtoSchema

open Wire

namespace MessageMarshaller

/-! ## Corresponding instances

The plans of both types agree up to their paths, so they write alike whatever reads alike. -/

theorem SpreadsTo.alike {m m' : MessageMarshaller} (h : m.SpreadsTo m') : m.Alike m' := by
  rw [Alike, h.plans]
  refine List.forall₂_iff_get.2 ⟨by rw [List.length_mapIdx], fun k hk hk' ↦ ⟨[k], ?_⟩⟩
  simp only [List.get_eq_getElem, List.getElem_mapIdx]

/-- An instance of both types corresponds to itself. -/
theorem SpreadsTo.corresponds_self {m m' : MessageMarshaller} (h : m.SpreadsTo m') {x : Instance}
    (hx : x.type = m.type) (hx' : x.type = m'.type) : m.Corresponds m' x x where
  type := hx
  type' := hx'
  fields k p p' hp hp' := by
    rw [h.plans, List.getElem?_mapIdx, hp, Option.map_some, Option.some.injEq] at hp'
    obtain ⟨getter, hgetter, hread⟩ := h.parts k p hp
    rw [← hp', Layout.get?_cons, hgetter, ← hread x]
    rfl
  retained := by rw [retained, retained, h.unknown]

/-! ## What is handed over

A leaf is handed over in the layout in which its path ends, which is the one of the type that
declares it. The member in its place is handed over at the top, and both are handed the value of the
same plan. -/

/-- An input is read for two types, of which the second one has members in the places of the leaves
of the first one. Both messages are handed the same unknown fields, and each member is handed what
the member of the same name at the end of the path of the leaf is handed, in the supertype that
declares it. -/
def HandsAlike (m m' : MessageMarshaller) (leaves : List Leaf) (reg : Registry)
    (nested : NestedReader) (input : Bytes) : Prop :=
  ∃ records values values',
    m.Reaches reg nested input records [] m.layout values ∧
    m'.Reaches reg nested input records [] m'.layout values' ∧
    values'.unknown = values.unknown ∧
    ∀ (k : Nat) (path : List Nat) (owner : TypeId) (member : Member),
      leaves[k]? = some (.field path owner member) →
        ∃ base j l inner slot, path = base ++ [j] ∧
          m.Reaches reg nested input records base l inner ∧
          inner.names[j]? = some member.name ∧ inner.slots[j]? = some slot ∧
          values'.names[k]? = some member.name ∧ values'.slots[k]? = some slot

section

variable {m m' : MessageMarshaller} {env env' : Environment} {resolve : Resolver}
  {info info' : TypeInfo} {message : MessageInfo} {factory : Factory} {reg : Registry}
  {nested : NestedReader} {input : Bytes}

theorem MadeOf.exists_contains (hm : m.MadeOf env resolve info message)
    (hinfo : info ∈ env ++ builtinAdapters) {path : List Nat} {owner : TypeId} {member : Member}
    (hleaf : Leaf.field path owner member ∈ info.leaves env message) :
    ∃ base j l getter, path = base ++ [j] ∧ m.layout.Contains base l ∧
      l.parts[j]? = some (.field getter) ∧ l.names[j]? = some member.name := by
  obtain ⟨k, p, b, hp, rfl, -, -⟩ := hm.exists_plan hleaf
  obtain ⟨base, j, l, getter, hpath, hl, hj⟩ :=
    Layout.exists_contains_of_hasField (hm.wellFormed.fields p (List.mem_of_getElem? hp))
  refine ⟨base, j, l, getter, hpath, hl, hj, ?_⟩
  obtain ⟨info', message', members, hmade, -⟩ := hl.exists_madeOf (hm.layout_madeOf hinfo)
  have hlt : j < message'.members.length :=
    hmade.length_eq ▸ (List.getElem?_eq_some_iff.1 hj).1
  rcases hmade.field_or_parent (List.getElem?_eq_getElem hlt) with
    ⟨_, _, _, _, hleaf'⟩ | ⟨_, _, _, _, _, _, _, _, hpart, _⟩
  · -- There is one leaf at the path.
    obtain ⟨_, -, hleads⟩ := TypeInfo.leads_of_mem hm.kind hleaf
    obtain ⟨_, -, hleads'⟩ := TypeInfo.leads_of_mem hm.kind hleaf'
    rw [hpath] at hleads
    obtain ⟨-, hmember⟩ := hleads.unique hleads'
    rw [hmade.names, List.getElem?_map, List.getElem?_eq_getElem hlt, ← hmember, Option.map_some]
  · cases hj.symm.trans hpart

/-- What is handed to a leaf is what is handed to the member in its place. -/
theorem SpreadsTo.handsAlike (hspreads : m.SpreadsTo m') (hm : m.MadeOf env resolve info message)
    (hinfo : info ∈ env ++ builtinAdapters)
    (hnames : m'.layout.names = (message.spread env info factory).members.map (·.name))
    (haccept : m.Accepts reg nested) (haccept' : m'.Accepts reg nested)
    {records : List (Bytes × Effect)} {hand hand' : List Nat → Option Value}
    (hreads : ReadTrace (m.readRecord reg nested) input records)
    (hreads' : ReadTrace (m'.readRecord reg nested) input records)
    (hhand : m.handing (records.map (·.2)) = .ok hand)
    (hhand' : m'.handing (records.map (·.2)) = .ok hand')
    (hsame : ∀ (k : Nat) (p p' : Plan), m.plans[k]? = some p → m'.plans[k]? = some p' →
      hand' p'.path = hand p.path) :
    m.HandsAlike m' (info.leaves env message) reg nested input := by
  obtain ⟨slots, -, hreaches⟩ := haccept.exists_reaches hreads hhand .self
  obtain ⟨slots', hslots', hreaches'⟩ := haccept'.exists_reaches hreads' hhand' .self
  refine ⟨records, _, _, hreaches, hreaches', rfl, fun k path owner member hleaf ↦ ?_⟩
  obtain ⟨p, hp, _, _, b, heq, -, -⟩ := exists_getElem?_of_forall₂ hm.forall₂_plans hleaf
  cases heq
  obtain ⟨base, j, l, getter, hpath, hl, hj, hname⟩ :=
    hm.exists_contains hinfo (List.mem_of_getElem? hleaf)
  -- The factory of the supertype is handed the value at the path.
  obtain ⟨inner, hinner, hreachesInner⟩ := haccept.exists_reaches hreads hhand hl
  have hslot := Layout.getElem?_of_assembleParts hinner hj
  rw [← hpath] at hslot
  -- So is the factory of the other type, at a position of its own.
  obtain ⟨getter', hpart, -⟩ := hspreads.parts k p hp
  have hslot' := Layout.getElem?_of_assembleParts hslots' hpart
  have hp' : m'.plans[k]? = some { p with path := [k] } := by
    rw [hspreads.plans, List.getElem?_mapIdx, hp, Option.map_some]
  have hname' : m'.layout.names[k]? = some member.name := by
    obtain ⟨member', hmember', _, _, _, heq, hmember, -⟩ :=
      exists_getElem?_of_forall₂ (MessageInfo.leaves_spreadsTo hm.layout factory) hleaf
    cases heq
    rw [hnames, List.getElem?_map, hmember', Option.map_some, hmember]
  exact ⟨base, j, l, _, _, hpath, hreachesInner, hname, hslot, hname',
    (hsame k p _ hp hp') ▸ hslot'⟩

end

end MessageMarshaller

/-- An input is decoded for two types, the second one of which has members in the places of the
leaves of the first one, and is handed over alike; or it is to blame that it is decoded for neither
type, and both report the same, up to their names. -/
def MessageMarshaller.DecodesAlike (m m' : MessageMarshaller) (leaves : List Leaf) (reg : Registry)
    (levels : Nat) (input : Bytes) : Prop :=
  (∃ e e', (reg.decodeAt levels m input).result = .error e ∧
      (reg.decodeAt levels m' input).result = .error e' ∧ e.BlamesInput ∧
      e.SameUpTo m.descriptor.qualifiedName m'.descriptor.qualifiedName e') ∨
    ∃ x x', (reg.decodeAt levels m input).result = .ok x ∧
      (reg.decodeAt levels m' input).result = .ok x' ∧
      m.HandsAlike m' leaves reg (reg.nestedAt levels) input

/-- **Flattening is transparent.** Let a message type build, with flattened supertypes at any depth,
and let another type be described by their members instead, through composed getters. Wherever
references lead to the same enums, the other type builds too, with the same fields and oneofs, and
both compile.

Instances of which the two types read the same values are written alike, and an instance of both
types is one of these. Every input is decoded alike, at any level of nesting, if factories accept
what they are handed and the type is registered in a registry without dangling references. -/
theorem TypeInfo.flattening_transparent {env env' : Environment} {resolve : Resolver}
    {ref ref' : TypeRef} {info info' : TypeInfo} {message : MessageInfo} {factory : Factory}
    {resolved : Resolved} {built : BuiltMessage}
    (hinfo : ref.info? env = some info) (hmessage : info.message? = some message)
    (hbuild : (build env resolve ref).result = .ok (.message built))
    (hinfo' : ref'.info? env' = some info')
    (hmessage' : info'.message? = some (message.spread env info factory))
    (hidentifier : Text.isIdentifier info'.typeName = true)
    (hresolved : resolve ref'.type = some resolved) (henums : env.SameEnums env') :
    ∃ m built' m', MessageMarshaller.compile env info built = .ok m ∧
      (build env' resolve ref').result = .ok (.message built') ∧
      MessageMarshaller.compile env' info' built' = .ok m' ∧
      built'.descriptor.fields = built.descriptor.fields ∧
      built'.descriptor.oneofs = built.descriptor.oneofs ∧
      (∀ (reg : Registry) (x x' : Instance), m.Corresponds m' x x' →
        ∀ bytes, reg.write m x = .ok bytes ↔ reg.write m' x' = .ok bytes) ∧
      (∀ x : Instance, x.type = info.type → x.type = info'.type → m.Corresponds m' x x) ∧
      ∀ (reg : Registry) (levels : Nat), reg.Closed → reg.messageMarshaller? info.type = some m →
        reg.Accepting → m'.Accepts reg (reg.nestedAt levels) →
          ∀ input, m.DecodesAlike m' (info.leaves env message) reg levels input := by
  obtain ⟨name, hmade⟩ := buildMessage_of_build hinfo hmessage hbuild
  obtain ⟨m, hcompile⟩ := MessageMarshaller.exists_compile hmessage hmade
  have hm : m.MadeOf env resolve info message := ⟨hmessage, name, built, hmade, hcompile⟩
  obtain ⟨built', hmade', hfields, honeofs, hzip⟩ :=
    buildMessage_spread factory info' resolved.qualifiedName henums hmessage hm.layout hmade
  have hcompile' := MessageMarshaller.compile_spread env' hmessage hmade hcompile hmessage' hzip
  have hspreads := hm.spreadsTo info' factory built'.descriptor
  have hm' : MessageMarshaller.MadeOf _ env' resolve info' _ :=
    ⟨hmessage', _, built', hmade', hcompile'⟩
  have halike := hspreads.alike
  refine ⟨m, built', _, hcompile,
    build_of_buildMessage hinfo' hmessage' hidentifier hresolved hmade', hcompile', hfields,
    honeofs, fun reg x x' hx bytes ↦ ?_,
    fun x hx hx' ↦ hspreads.corresponds_self (hx.trans hm.type.symm) (hx'.trans hm'.type.symm),
    fun reg levels hreg hregistered haccepting haccept' input ↦ ?_⟩
  · rw [← toOption_eq_some, ← toOption_eq_some, halike.toOption_write hx]
  · have haccept := haccepting _ m hregistered levels
    unfold MessageMarshaller.DecodesAlike
    rcases halike.decodeWith_cases hm.wellFormed hm'.wellFormed reg (reg.nestedAt levels) input with
      ⟨e, e', he, he', hsame⟩ | ⟨records, hand, hand', hreads, hreads', hhand, hhand', hsame⟩
    · rw [← Registry.decodeAt_eq] at he he'
      exact .inl ⟨e, e', he, he', hreg.blamesInput haccepting hregistered he, hsame⟩
    · obtain ⟨x, hx⟩ := haccept.exists_decodeWith hreads hhand
      obtain ⟨x', hx'⟩ := haccept'.exists_decodeWith hreads' hhand'
      rw [← Registry.decodeAt_eq] at hx hx'
      exact .inr ⟨x, x', hx, hx', hspreads.handsAlike hm (TypeRef.mem_of_info? hinfo) rfl haccept
        haccept' hreads hreads' hhand hhand' hsame⟩

/-! ## Parrots, which are birds, which are animals

A parrot is described in two ways, by its supertypes and all at once. The second description puts
the animal and the bird within together by itself. -/

namespace Zoo

def animal : TypeId := ⟨"zoo::Animal"⟩

def bird : TypeId := ⟨"zoo::Bird"⟩

def parrot : TypeId := ⟨"zoo::Parrot"⟩

def animalInfo : TypeInfo :=
  .storing animal
    [({ name := "id", kind := .field (.scalar .int32), getter := ·, number := some 1
        scalar := some .sint32, required := true }),
      ({ name := "name", kind := .field (.optional (.scalar .string)), getter := ·
         number := some 2 })]

def birdInfo : TypeInfo :=
  .storing bird
    [({ name := "animal", kind := .flatten (.of animal), getter := · }),
      ({ name := "span", kind := .field (.scalar .uint32), getter := ·, number := some 3 })]

def parrotMessage : MessageInfo :=
  .storing parrot
    [({ name := "words", kind := .field (.repeated (.scalar .string)), getter := ·
        number := some 4 }),
      ({ name := "bird", kind := .flatten (.of bird), getter := · })]

def parrotInfo : TypeInfo where
  type := parrot
  path := parrot.name
  kind := .message parrotMessage

def environment : Environment := [animalInfo, birdInfo, parrotInfo]

/-- Puts a parrot together from all members at once, the animal and the bird within included. -/
def gather : Factory := fun values ↦
  let member (k : Nat) : Option Value := some (values.slots[k]?.join.getD .absent)
  let animal := Instance.record animal [member 1, member 2] [] .empty
  let bird := Instance.record bird [some (.message animal), member 3] [] .empty
  .ok (.record parrot [member 0, some (.message bird)] [] values.unknown)

/-- A parrot that declares the members of birds and of animals itself. -/
def wholeInfo : TypeInfo :=
  { parrotInfo with kind := .message (parrotMessage.spread environment parrotInfo gather) }

def whole : TypeRef := ⟨parrot, .described 3⟩

def resolve : Resolver := fun _ ↦ some ⟨"zoo.Parrot", .message⟩

/-- Nothing but a message is registered. -/
def registry (m : MessageMarshaller) : Registry :=
  Registry.empty.insert ⟨.message m.descriptor, ⟨0, 0⟩, .message m, ⟨0, 1⟩⟩ none

def polly : Instance :=
  .record parrot
    [some (.list [.string "hello"]),
      some (.message (.record bird
        [some (.message (.record animal [some (.i32 (-1)), some (.string "Polly")] [] .empty)),
          some (.u32 30)] [] .empty))]
    [] .empty

def pollyBytes : Bytes :=
  [0x22, 0x05, 0x68, 0x65, 0x6C, 0x6C, 0x6F, 0x08, 0x01, 0x12, 0x05, 0x50, 0x6F, 0x6C, 0x6C, 0x79,
    0x18, 0x1E]

theorem exists_compile : ∃ built m,
    (build environment resolve (.of parrot)).result = .ok (.message built) ∧
      MessageMarshaller.compile environment parrotInfo built = .ok m ∧
      m.plans.map (·.path) = [[0], [1, 0, 0], [1, 0, 1], [1, 1]] ∧
      (∀ p ∈ m.plans, ∃ s, p.element = .scalar s) ∧
      (registry m).write m polly = .ok pollyBytes := by
  have hbuilds : ((build environment resolve (.of parrot)).result.toOption.bind
      Built.message?).map (fun b ↦
        (MessageMarshaller.compile environment parrotInfo b).toOption.map fun m ↦
          (m.plans.map (·.path), m.plans.map (·.element), ((registry m).write m polly).toOption)) =
      some (some ([[0], [1, 0, 0], [1, 0, 1], [1, 1]],
        [.scalar .string, .scalar .sint32, .scalar .string, .scalar .uint32],
        some pollyBytes)) := by
    decide +kernel
  obtain ⟨built, hbuild, hview⟩ := exists_of_message? hbuilds
  obtain ⟨m, hm, hview⟩ := Option.map_eq_some_iff.1 hview
  obtain ⟨hpaths, hview⟩ := Prod.mk.inj hview
  obtain ⟨helements, hwrite⟩ := Prod.mk.inj hview
  have hscalar : ∀ e ∈ m.plans.map (·.element), ∃ s, e = .scalar s := by
    rw [helements]
    simp
  exact ⟨built, m, hbuild, toOption_eq_some.1 hm, hpaths,
    fun p hp ↦ hscalar _ (List.mem_map_of_mem hp), toOption_eq_some.1 hwrite⟩

section

variable {m m' : MessageMarshaller} {t : TypeId}

theorem get?_registry {e : Entry} (h : (registry m).get? t = some e) :
    t = m.type ∧ e.descriptor = .message m.descriptor ∧ e.marshaller = .message m := by
  unfold registry Registry.get? Registry.insert at h
  rw [TypeMap.get?_insert] at h
  split at h
  · next ht =>
    cases h
    exact ⟨ht, rfl, rfl⟩
  · cases h

theorem messageMarshaller?_registry (m : MessageMarshaller) :
    (registry m).messageMarshaller? m.type = some m := by
  refine Registry.messageMarshaller?_eq_some.2
    ⟨⟨⟨.message m.descriptor, ⟨0, 0⟩, .message m, ⟨0, 1⟩⟩,
    none⟩, ?_, rfl⟩
  unfold registry Registry.get? Registry.insert
  rw [TypeMap.get?_insert]
  exact if_pos rfl

theorem eq_of_messageMarshaller? (h : (registry m).messageMarshaller? t = some m') : m' = m := by
  obtain ⟨e, he, hm⟩ := Registry.messageMarshaller?_eq_some.1 h
  rw [(get?_registry he).2.2] at hm
  exact (Marshaller.message.inj hm).symm

theorem closed_registry (hm : m.WellFormed) (hscalar : ∀ p ∈ m.plans, ∃ s, p.element = .scalar s) :
    (registry m).Closed where
  type t e he := by
    obtain ⟨ht, -, hmarshaller⟩ := get?_registry he
    rw [hmarshaller, ht]
    rfl
  sort t e he := by
    obtain ⟨-, hdescriptor, hmarshaller⟩ := get?_registry he
    rw [hdescriptor, hmarshaller]
    rfl
  wellFormed t m' h := eq_of_messageMarshaller? h ▸ hm
  resolved t m' h p hp := by
    obtain ⟨s, hs⟩ := hscalar p (eq_of_messageMarshaller? h ▸ hp)
    rw [hs]
    trivial

def animalLayout : Layout := .storing animal ["id", "name"]

def birdLayout : Layout :=
  .mk bird.name ["animal", "span"] (.storing bird) (some (unknownOfRecord bird))
    [.flatten (.member bird 0) animalLayout, .field (.member bird 1)]

def parrotLayout : Layout :=
  .mk parrot.name ["words", "bird"] (.storing parrot) (some (unknownOfRecord parrot))
    [.field (.member parrot 0), .flatten (.member parrot 1) birdLayout]

theorem layout_eq : Layout.ofInfo environment parrotInfo parrotMessage = .ok parrotLayout := by
  cbv

theorem exists_storing {path : List Nat} {l : Layout} (h : parrotLayout.Contains path l) :
    ∃ type, l.factory = .storing type := by
  have hl : l = parrotLayout ∨ l = birdLayout ∨ l = animalLayout := by
    refine h.of_parts (P := fun l ↦ l = parrotLayout ∨ l = birdLayout ∨ l = animalLayout)
      (.inl rfl) fun l getter parent hl hparent ↦ ?_
    rcases hl with rfl | rfl | rfl
    · have hbird : getter = .member parrot 1 ∧ parent = birdLayout := by
        simpa [parrotLayout, Layout.parts] using hparent
      exact .inr (.inl hbird.2)
    · have hanimal : getter = .member bird 0 ∧ parent = animalLayout := by
        simpa [birdLayout, Layout.parts] using hparent
      exact .inr (.inr hanimal.2)
    · simp [animalLayout, Layout.storing, Layout.parts] at hparent
  rcases hl with rfl | rfl | rfl
  · exact ⟨parrot, rfl⟩
  · exact ⟨bird, rfl⟩
  · exact ⟨animal, rfl⟩

theorem accepting_registry (hm : m.MadeOf environment resolve parrotInfo parrotMessage) :
    (registry m).Accepting := by
  intro t m' hm' levels input records path l values hreaches
  obtain rfl := eq_of_messageMarshaller? hm'
  have hlayout := Except.ok.inj (hm.layout.symm.trans layout_eq)
  obtain ⟨type, hfactory⟩ := exists_storing (hlayout ▸ hreaches.contains)
  exact ⟨_, by rw [hfactory, Factory.storing]⟩

theorem accepts_whole {reg : Registry} {nested : NestedReader}
    (hm : m.MadeOf (environment ++ [wholeInfo]) resolve wholeInfo
      (parrotMessage.spread environment parrotInfo gather)) : m.Accepts reg nested := by
  have hlayout := Except.ok.inj (hm.layout.symm.trans
    ((MessageInfo.hasFieldsOnly_spread rfl layout_eq gather).layout_eq _ _))
  intro input records path l values hreaches
  have hl : l = m.layout :=
    hreaches.contains.of_parts (P := (· = m.layout)) rfl fun l _ parent hl hparent ↦ by
      rw [hl, hlayout] at hparent
      obtain ⟨_, -, heq⟩ := List.mem_map.1 hparent
      cases heq
  exact ⟨_, by rw [hl, hlayout, Layout.factory]; rfl⟩

end

end Zoo

/-- A parrot is written alike by both of its descriptions, and every input is decoded alike. -/
theorem Zoo.flattening_transparent_parrot : ∃ built m built' m',
    (build environment resolve (.of parrot)).result = .ok (.message built) ∧
      MessageMarshaller.compile environment parrotInfo built = .ok m ∧
      m.plans.map (·.path) = [[0], [1, 0, 0], [1, 0, 1], [1, 1]] ∧
      (build (environment ++ [wholeInfo]) resolve whole).result = .ok (.message built') ∧
      MessageMarshaller.compile (environment ++ [wholeInfo]) wholeInfo built' = .ok m' ∧
      (registry m).write m polly = .ok pollyBytes ∧ (registry m).write m' polly = .ok pollyBytes ∧
      ∀ input, m.DecodesAlike m' (parrotInfo.leaves environment parrotMessage) (registry m)
        nestingLimit input := by
  obtain ⟨built, m, hbuild, hcompile, hpaths, hscalar, hwrite⟩ := exists_compile
  have hinfo : (TypeRef.of parrot).info? environment = some parrotInfo := rfl
  have hmessage : parrotInfo.message? = some parrotMessage := rfl
  have hinfo' : whole.info? (environment ++ [wholeInfo]) = some wholeInfo := rfl
  have hmessage' : wholeInfo.message? =
      some (parrotMessage.spread environment parrotInfo gather) := rfl
  have henums : environment.SameEnums (environment ++ [wholeInfo]) :=
    Environment.sameEnums_append_singleton rfl
  obtain ⟨m₁, built', m', hcompile₁, hbuild', hcompile', -, -, hwrites, hself, hdecodes⟩ :=
    TypeInfo.flattening_transparent hinfo hmessage hbuild hinfo' hmessage' (by decide +kernel) rfl
      henums
  obtain rfl := Except.ok.inj (hcompile.symm.trans hcompile₁)
  obtain ⟨_, hmade⟩ := buildMessage_of_build hinfo hmessage hbuild
  obtain ⟨_, hmade'⟩ := buildMessage_of_build hinfo' hmessage' hbuild'
  have hm : m.MadeOf environment resolve parrotInfo parrotMessage :=
    ⟨hmessage, _, _, hmade, hcompile⟩
  refine ⟨built, m, built', m', hbuild, hcompile, hpaths, hbuild', hcompile', hwrite,
    (hwrites _ polly polly (hself polly rfl rfl) _).1 hwrite, ?_⟩
  exact hdecodes _ nestingLimit (closed_registry hm.wellFormed hscalar)
    (hm.type ▸ messageMarshaller?_registry m) (accepting_registry hm)
    (accepts_whole ⟨hmessage', _, _, hmade', hcompile'⟩)

end ProtoSchema
