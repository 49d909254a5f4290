import ProtoSchema.Proofs.Codec.TypeSound

/-!
# Parameters of factories

A factory that asks for members by name declares the names, and building checks that each is borne
by a member. The check looks at the type that is built only. A supertype that it flattens brings its
own factory along, which decoding calls as well, but it is not built for that. So its parameters are
checked only if the supertype happens to be built on its own account.

A factory is handed one slot for each member of its type and nothing else. That its parameters name
members is therefore all that it takes for them to be found, however much was taken before.
-/

set_option autoImplicit false

namespace ProtoSchema

open Wire

/-! ## Slots by name

Taking by name finds the position of the name and takes what is there. Slots are emptied and never
removed, so a member that has a slot keeps it. -/

namespace FieldValues

variable {values : FieldValues} {name : String}

/-- There is a slot for the member with a name. -/
def HasSlot (values : FieldValues) (name : String) : Prop :=
  ∃ k slot, values.indexOf? name = some k ∧ values.slots[k]? = some slot

/-- The members and slots are the same, whatever was taken out of the slots. -/
def SameSlots (values rest : FieldValues) : Prop :=
  rest.names = values.names ∧ rest.slots.length = values.slots.length

theorem hasSlot_iff (hlength : values.slots.length = values.names.length) :
    values.HasSlot name ↔ name ∈ values.names := by
  constructor
  · rintro ⟨k, slot, hk, -⟩
    obtain ⟨hlt, hname, -⟩ := List.findIdx?_eq_some_iff_getElem.1 hk
    exact eq_of_beq hname ▸ List.getElem_mem hlt
  · intro hname
    have hsome : (values.indexOf? name).isSome = true := by
      rw [indexOf?, List.findIdx?_isSome, List.any_eq_true]
      exact ⟨name, hname, beq_self_eq_true name⟩
    obtain ⟨k, hk⟩ := Option.isSome_iff_exists.1 hsome
    obtain ⟨hlt, -⟩ := List.findIdx?_eq_some_iff_getElem.1 hk
    exact ⟨k, _, hk, List.getElem?_eq_getElem (hlength ▸ hlt)⟩

theorem HasSlot.of_sameSlots {rest : FieldValues} (h : values.HasSlot name)
    (hsame : values.SameSlots rest) : rest.HasSlot name := by
  obtain ⟨k, slot, hk, hslot⟩ := h
  have hlt : k < rest.slots.length := hsame.2 ▸ (List.getElem?_eq_some_iff.1 hslot).1
  exact ⟨k, _, by rw [indexOf?, hsame.1]; exact hk, List.getElem?_eq_getElem hlt⟩

theorem takeNamed_eq {k : Nat} (hk : values.indexOf? name = some k) (t : NativeType) :
    takeNamed t name values = take t k values := by
  unfold takeNamed
  change StateT.bind StateT.get _ values = _
  simp only [StateT.bind, StateT.get, pure_eq_ok, ok_bind, hk]

theorem ne_noSuchMember_of_take {t : NativeType} {k : Nat} {slot : Option Value}
    (hslot : values.slots[k]? = some slot) (typePath member : String) :
    take t k values ≠ .error (.noSuchMember typePath member) := by
  rw [take, bind_takeValue hslot]
  cases slot with
  | some v =>
    intro h
    obtain ⟨cause, -, h⟩ := explain_eq_error h
    cases h
  | none => cases hmissing : t.missing? <;> simp [orMissing]

theorem HasSlot.ne_noSuchMember (h : values.HasSlot name) (t : NativeType)
    (typePath member : String) :
    takeNamed t name values ≠ .error (.noSuchMember typePath member) := by
  obtain ⟨k, slot, hk, hslot⟩ := h
  rw [takeNamed_eq hk]
  exact ne_noSuchMember_of_take hslot typePath member

end FieldValues

/-! ## The check

Building looks for a parameter that no member bears, among the parameters and the members of the
description at hand. -/

/-- Every parameter of the factory is the name of a member. -/
def MessageInfo.NamesMembers (message : MessageInfo) : Prop :=
  ∀ param ∈ message.factoryParams.getD [], ∃ member ∈ message.members, member.name = param

theorem checkParams_eq_ok {typePath : String} {message : MessageInfo} :
    checkParams typePath message = .ok () ↔ message.NamesMembers := by
  unfold checkParams MessageInfo.NamesMembers
  split
  · next param h =>
    have hmem := List.mem_of_find?_eq_some h
    have hmissing := List.find?_some h
    refine ⟨nofun, fun hall ↦ ?_⟩
    obtain ⟨member, hmember, hname⟩ := hall param hmem
    simp only [Bool.not_eq_true', List.any_eq_false, beq_iff_eq] at hmissing
    exact absurd hname (hmissing member hmember)
  · next h => simpa [List.find?_eq_none] using h

namespace TypeInfo

/-- If a message is described, its parameters name its members. -/
def NamesMembers (info : TypeInfo) : Prop :=
  ∀ message, info.message? = some message → message.NamesMembers

/-- A message is described whose factory has parameters. -/
def HasParams (info : TypeInfo) : Prop :=
  ∃ message, info.message? = some message ∧ message.factoryParams.getD [] ≠ []

/-- A description is accepted where it is built. -/
def Passes (env : Environment) (info : TypeInfo) : Prop :=
  ∃ ref resolve built, ref.info? env = some info ∧ (build env resolve ref).result = .ok built

variable {env : Environment} {info : TypeInfo}

theorem Passes.namesMembers (h : info.Passes env) : info.NamesMembers := by
  obtain ⟨ref, resolve, built, hinfo, hbuild⟩ := h
  intro message hmessage
  obtain ⟨resolved, -, ⟨message', b, hkind, -, hb⟩ | ⟨variants, e, hkind, -, -⟩⟩ :=
    build_eq_ok hinfo hbuild
  · rw [message?, hkind] at hmessage
    cases hmessage
    obtain ⟨_, hparams, -⟩ := bind_eq_ok.1 hb
    exact checkParams_eq_ok.1 hparams
  · rw [message?, hkind] at hmessage
    cases hmessage

theorem namesMembers_of_not_hasParams (h : ¬info.HasParams) : info.NamesMembers := by
  intro message hmessage param hparam
  exact absurd ⟨message, hmessage, List.ne_nil_of_mem hparam⟩ h

end TypeInfo

/-! ## Factories that decoding reaches

The layouts below a layout are those of the supertypes that the type flattens, at some depth. Each
of them has the names of its own members and asks its own factory. -/

/-- A factory that decoding reaches is that of the type itself or of a supertype that it flattens at
some depth, and the names that it has slots for are those of the members of its type. -/
theorem MessageMarshaller.Reaches.hasSlot_iff {m : MessageMarshaller} {env : Environment}
    {resolve : Resolver} {ref : TypeRef} {info : TypeInfo} {message : MessageInfo}
    (hinfo : ref.info? env = some info) (hm : m.MadeOf env resolve info message) {reg : Registry}
    {nested : NestedReader} {input : Bytes} {records : List (Bytes × Effect)} {path : List Nat}
    {l : Layout} {values : FieldValues} (h : m.Reaches reg nested input records path l values) :
    ∃ owner message', Relation.ReflTransGen (TypeInfo.Flattens env) info owner ∧
      owner.message? = some message' ∧ l.factory = message'.factory ∧
      ∀ name, values.HasSlot name ↔ ∃ member ∈ message'.members, member.name = name := by
  obtain ⟨owner, message', members, hl, -, hflattens⟩ :=
    h.contains.exists_madeOf (hm.layout_madeOf (TypeRef.mem_of_info? hinfo))
  obtain ⟨hand, slots, -, hslots, rfl⟩ := h.fills
  refine ⟨owner, message', hflattens, hl.kind, hl.factory, fun name ↦ ?_⟩
  have hlength : slots.length = l.names.length := by
    rw [(Layout.fills_of_assembleParts hslots).1, hl.length_eq, hl.names, List.length_map]
  rw [FieldValues.hasSlot_iff hlength]
  simp only [hl.names, List.mem_map]

theorem MessageMarshaller.Reaches.parent {m : MessageMarshaller} {reg : Registry}
    {nested : NestedReader} {input : Bytes} {records : List (Bytes × Effect)} {path : List Nat}
    {l : Layout} {values : FieldValues} (h : m.Reaches reg nested input records path l values)
    {k : Nat} {getter : Getter} {parent : Layout}
    (hk : l.parts[k]? = some (.flatten getter parent)) :
    ∃ values', m.Reaches reg nested input records (path ++ [k]) parent values' := by
  obtain ⟨hand, slots, hhand, hslots, -⟩ := h.fills
  obtain ⟨slot, -, i, hparent, -⟩ := (Layout.fills_of_assembleParts hslots).2 k _ hk
  rw [Nat.zero_add] at hparent
  obtain ⟨slots', hslots', -⟩ := Layout.factory_of_assemble hparent
  exact ⟨_, h.reads, h.contains.parent hk, hand, slots', hhand, hslots', rfl⟩

/-- **Checked parameters are found.** Let a described type be built, and let every supertype that it
flattens at any depth, if its factory has parameters, be one that is accepted where it is built
itself. Then the parameters of all these types name members of the types that declare them. Wherever
decoding reaches a factory, it is the factory of one of them. It has a slot for each of its
parameters, and whatever it took before, it is not told that there is no such member. -/
theorem TypeInfo.parameters_of_build {env : Environment} {resolve : Resolver} {ref : TypeRef}
    {info : TypeInfo} {built : Built} (hinfo : ref.info? env = some info)
    (hbuild : (build env resolve ref).result = .ok built)
    (hparents : ∀ parent, Relation.TransGen (Flattens env) info parent → parent.HasParams →
      parent.Passes env) :
    (∀ owner, Relation.ReflTransGen (Flattens env) info owner → owner.NamesMembers) ∧
    ∀ (resolve' : Resolver) (message : MessageInfo) (m : MessageMarshaller),
      m.MadeOf env resolve' info message → ∀ reg nested input records path l values,
        m.Reaches reg nested input records path l values →
        ∃ owner message', Relation.ReflTransGen (Flattens env) info owner ∧
          owner.message? = some message' ∧ l.factory = message'.factory ∧
          ∀ param ∈ message'.factoryParams.getD [], values.HasSlot param ∧
            ∀ rest, values.SameSlots rest → ∀ t typePath member,
              FieldValues.takeNamed t param rest ≠ .error (.noSuchMember typePath member) := by
  have hnames : ∀ owner, Relation.ReflTransGen (Flattens env) info owner → owner.NamesMembers := by
    intro owner howner
    rcases Relation.reflTransGen_iff_eq_or_transGen.1 howner with rfl | hflattens
    · exact Passes.namesMembers ⟨ref, resolve, built, hinfo, hbuild⟩
    · by_cases hparams : owner.HasParams
      · exact (hparents owner hflattens hparams).namesMembers
      · exact namesMembers_of_not_hasParams hparams
  refine ⟨hnames, fun resolve' message m hm reg nested input records path l values h ↦ ?_⟩
  obtain ⟨owner, message', hflattens, hmessage, hfactory, hslots⟩ := h.hasSlot_iff hinfo hm
  refine ⟨owner, message', hflattens, hmessage, hfactory, fun param hparam ↦ ?_⟩
  have hslot := (hslots param).2 (hnames owner hflattens message' hmessage param hparam)
  exact ⟨hslot, fun rest hrest t ↦ (hslot.of_sameSlots hrest).ne_noSuchMember t⟩

/-! ## An annex to a house

The factory of houses may ask for whatever it likes, as long as no house is built on its own
account. -/

namespace Annex

open FieldValues

def house : TypeId := ⟨"annex::House"⟩

def annex : TypeId := ⟨"annex::Annex"⟩

/-- Builds a house of the member that it asks for by name. -/
def houseFactory (param : String) : Factory := fun values ↦
  let build : Take Instance := do
    let id ← takeNamed (.plain .i32) param
    return .record house [some ((NativeType.plain .i32).toValue id)] [] .empty
  build.run' values

/-- A house with a number. -/
def houseInfo (param : String) : TypeInfo where
  type := house
  path := house.name
  kind := .message
    { members :=
        [{ name := "id", kind := .field (.scalar .int32), getter := .member house 0
           number := some 1 }]
      factory := houseFactory param
      factoryParams := some [param] }

/-- An annex, which is a house. -/
def annexInfo : TypeInfo :=
  .storing annex [({ name := "house", kind := .flatten (.of house), getter := · })]

def environment (param : String) : Environment := [annexInfo, houseInfo param]

def registry (param : String) : Registry :=
  CompilationUnit.registry { fileName := "annex.proto", requested := [.of annex] }
    (environment param)

/-- A name for every type. -/
def resolve : Resolver := fun type ↦ some ⟨type.name, .message⟩

def houseLayout (param : String) : Layout :=
  .mk house.name ["id"] (houseFactory param) none [.field (.member house 0)]

def annexLayout (param : String) : Layout :=
  .mk annex.name ["house"] (.storing annex) (some (unknownOfRecord annex))
    [.flatten (.member annex 0) (houseLayout param)]

theorem flattens (param : String) :
    annexInfo.Flattens (environment param) (houseInfo param) :=
  ⟨_, rfl, _, List.mem_singleton_self _, _, rfl, rfl⟩

/-- The annex flattens the house and nothing else. -/
theorem eq_house_of_transGen {param : String} {parent : TypeInfo}
    (h : Relation.TransGen (TypeInfo.Flattens (environment param)) annexInfo parent) :
    parent = houseInfo param := by
  induction h with
  | single h =>
    obtain ⟨message, ⟨⟩, member, hmember, ref, hkind, hinfo⟩ := h
    obtain rfl := List.mem_singleton.1 hmember
    cases hkind
    cases hinfo
    rfl
  | tail _ h ih =>
    subst ih
    obtain ⟨message, ⟨⟩, member, hmember, ref, hkind, hinfo⟩ := h
    obtain rfl := List.mem_singleton.1 hmember
    cases hkind

theorem exists_marshaller :
    ∃ m resolve' message, (registry "id").messageMarshaller? annex = some m ∧
      m.layout = annexLayout "id" ∧ m.MadeOf (environment "id") resolve' annexInfo message := by
  have hregistered : (((registry "id").messageMarshaller? annex).map (·.plans)).isSome = true := by
    decide +kernel
  obtain ⟨plans, hplans⟩ := Option.isSome_iff_exists.1 hregistered
  obtain ⟨m, hm, htype, -, hlayout⟩ := CompilationUnit.exists_marshaller annexInfo
    (by decide +kernel) (.head _) hplans (l := annexLayout "id") (by rintro message ⟨⟩; cbv)
  obtain ⟨ref, resolve', info, message, hinfo, hmade⟩ :=
    (CompilationUnit.compiledFrom_registry hm).exists_madeOf
  have hsame : info.type = annex := hmade.type.symm.trans htype
  obtain rfl : info = annexInfo := by
    rcases TypeRef.mem_of_info? hinfo with _ | ⟨_, _ | ⟨_, h⟩⟩
    · rfl
    · exact absurd hsame (by decide)
    · have hall : ∀ i ∈ builtinAdapters, i.type ≠ annex := by decide +kernel
      exact absurd hsame (hall info h)
  exact ⟨m, resolve', message, hm, hlayout, hmade⟩

end Annex

/-- The factory of a house that asks for its number finds it when an annex is decoded. -/
theorem Annex.parameters_of_build_id :
    (∀ owner, Relation.ReflTransGen (TypeInfo.Flattens (environment "id")) annexInfo owner →
      owner.NamesMembers) ∧
    ∃ (m : MessageMarshaller) (records : List (Bytes × Effect)) (values : FieldValues),
      (registry "id").messageMarshaller? annex = some m ∧
      m.Reaches (registry "id") ((registry "id").nestedAt nestingLimit) [0x08, 0x05] records [0]
        (houseLayout "id") values ∧
      ∃ owner message,
        Relation.ReflTransGen (TypeInfo.Flattens (environment "id")) annexInfo owner ∧
        owner.message? = some message ∧ houseFactory "id" = message.factory ∧
        ∀ param ∈ message.factoryParams.getD [], values.HasSlot param ∧
          ∀ rest, values.SameSlots rest → ∀ t typePath member,
            FieldValues.takeNamed t param rest ≠ .error (.noSuchMember typePath member) := by
  have hbuilds : ∀ type ∈ [annex, house],
      (build (environment "id") resolve (.of type)).result.toOption.isSome = true := by
    decide +kernel
  obtain ⟨built, hbuild⟩ := isSome_toOption_iff.1 (hbuilds annex (.head _))
  obtain ⟨built', hbuild'⟩ := isSome_toOption_iff.1 (hbuilds house (.tail _ (.head _)))
  have hinfo : (TypeRef.of annex).info? (environment "id") = some annexInfo := rfl
  obtain ⟨hnames, hreached⟩ := TypeInfo.parameters_of_build hinfo hbuild
    fun parent hparent _ ↦ eq_house_of_transGen hparent ▸ ⟨.of house, resolve, built', rfl, hbuild'⟩
  obtain ⟨m, resolve', message, hm, hlayout, hmade⟩ := exists_marshaller
  have hall : ((registry "id").messageMarshaller? annex).map (fun m ↦
      ((registry "id").decodeAt nestingLimit m [0x08, 0x05]).result.toOption.isSome)
        = some true := by
    decide +kernel
  rw [hm, Option.map_some, Option.some_inj] at hall
  obtain ⟨i, hi⟩ := isSome_toOption_iff.1 hall
  rw [Registry.decodeAt_eq] at hi
  obtain ⟨records, _, hroot⟩ := MessageMarshaller.exists_reaches hi
  have hparent : m.layout.parts[0]? = some (.flatten (.member annex 0) (houseLayout "id")) := by
    rw [hlayout]
    rfl
  obtain ⟨values, hreaches⟩ := hroot.parent hparent
  exact ⟨hnames, m, records, values, hm, hreaches,
    hreached resolve' message m hmade _ _ _ _ _ _ _ hreaches⟩

/-- An annex is built and registered although the factory of the house that it flattens asks for a
member that a house does not have. When an annex is decoded, the factory does not find it. -/
theorem Annex.not_named :
    (∃ built, (build (environment "floors") resolve (.of annex)).result = .ok built) ∧
    annexInfo.Flattens (environment "floors") (houseInfo "floors") ∧
    ¬(houseInfo "floors").NamesMembers ∧
    ((registry "floors").decode annex [0x08, 0x05]).result
      = .error (.factory (.noSuchMember "annex::House" "floors")) := by
  refine ⟨isSome_toOption_iff.1 (by decide +kernel), flattens "floors", fun h ↦ ?_, ?_⟩
  · obtain ⟨member, hmember, hname⟩ := h _ rfl "floors" (List.mem_singleton_self _)
    obtain rfl := List.mem_singleton.1 hmember
    exact absurd hname (by decide)
  · have hdecode : (((registry "floors").decode annex [0x08, 0x05]).result.map fun _ ↦ ())
        = .error (.factory (.noSuchMember "annex::House" "floors")) := by
      decide +kernel
    exact map_eq_error.1 hdecode

end ProtoSchema
