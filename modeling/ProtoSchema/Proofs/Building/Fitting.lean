import ProtoSchema.Proofs.Building.Spreading
import ProtoSchema.Proofs.Codec.Running

/-!
# Plans and layout fit together

Supertypes are followed twice. Once the members that are come to are checked one by one and become
fields, each bound to the path on which it was found, and once they become the layout. A marshaller
puts the two together by paths and numbers alone. That this works is due to both going through the
same followed members in the same order: the paths of the plans are the paths of the layout.
-/

set_option autoImplicit false

namespace ProtoSchema

open Wire

/-! ## Paths of leaves and paths of parts

Both lists come of the followed members by one recursion. Members that are no fields have no leaves
that count and no parts that are kept, which is why the lists agree in length as well. -/

mutual

theorem Inlined.filterMap_leaves {typePath : String} {part : Part} (i : Inlined) (base : List Nat)
    (h : Layout.partOf typePath i = .ok part) :
    (i.leaves base).filterMap Leaf.path? = part.fieldPaths.map (base ++ ·) := by
  match i with
  | .field owner member =>
    rw [Layout.partOf] at h
    cases h
    rw [leaves]
    simp [Leaf.path?, Part.fieldPaths]
  | .parent member info message members =>
    rw [Layout.partOf] at h
    obtain ⟨parts, hparts, h⟩ := bind_eq_ok.1 h
    cases h
    rw [leaves, Inlined.filterMap_leavesFrom members base 0 hparts, Part.fieldPaths,
      Layout.fieldPaths]
  | .invalid member | .cycle member =>
    rw [Layout.partOf] at h
    cases h

theorem Inlined.filterMap_leavesFrom {typePath : String} {parts : List Part}
    (members : List Inlined) (base : List Nat) (index : Nat)
    (h : Layout.partsOf typePath members = .ok parts) :
    (Inlined.leavesFrom base index members).filterMap Leaf.path? =
      (Layout.fieldPathsFrom index parts).map (base ++ ·) := by
  match members with
  | [] =>
    rw [Layout.partsOf] at h
    cases h
    rw [leavesFrom, Layout.fieldPathsFrom]
    rfl
  | i :: rest =>
    rw [Layout.partsOf] at h
    obtain ⟨part, hpart, h⟩ := bind_eq_ok.1 h
    obtain ⟨parts, hparts, h⟩ := bind_eq_ok.1 h
    cases h
    rw [leavesFrom, List.filterMap_append, Inlined.filterMap_leaves i (base ++ [index]) hpart,
      Inlined.filterMap_leavesFrom rest base (index + 1) hparts, Layout.fieldPathsFrom_cons,
      List.map_append, List.map_map]
    congr 1
    refine List.map_congr_left fun path _ ↦ ?_
    rw [List.append_assoc, List.singleton_append]
    rfl

end

section

variable {env : Environment} {resolve : Resolver} {info : TypeInfo} {message : MessageInfo}

theorem Layout.fieldPaths_eq {l : Layout} (h : Layout.ofInfo env info message = .ok l) :
    l.fieldPaths = (info.leaves env message).filterMap Leaf.path? := by
  obtain ⟨parts, hparts, h⟩ := bind_eq_ok.1 h
  cases h
  rw [fieldPaths, TypeInfo.leaves, Inlined.filterMap_leavesFrom _ [] 0 hparts]
  exact (List.map_id _).symm

/-! ## Marshallers that fit

A marshaller is complete if there is a plan for each path of its layout, in the same order, and the
oneofs list the members that name them. Tables are made from such a marshaller without fail, and
they fit it. -/

/-- **A compiled marshaller is complete.** -/
theorem MessageMarshaller.MadeOf.complete {m : MessageMarshaller}
    (hm : m.MadeOf env resolve info message) : m.Complete := by
  obtain ⟨name, built, hbuild, hcompile⟩ := hm.built
  obtain ⟨-, hdescriptor, -, -⟩ := compile_eq_ok hcompile
  have hbuilt := wellFormed_of_buildMessage hm.kind hbuild
  exact {
    numbers := hm.wellFormed.numbers
    distinct := hm.wellFormed.paths
    paths := by
      rw [Layout.fieldPaths_eq hm.layout]
      refine (Leaf.filterMap_path? (hm.forall₂_plans.imp fun leaf p hleaf ↦ ?_)).symm
      obtain ⟨owner, member, -, heq, -⟩ := hleaf
      exact ⟨owner, member, heq⟩
    named := by
      intro p hp g hg
      have hfield : p.field ∈ built.descriptor.fields := by
        rw [← hdescriptor, ← hm.fields]
        exact List.mem_map_of_mem hp
      rw [hdescriptor]
      exact List.mem_map.1 ((hbuilt.named g).2 ⟨p.field, hfield, hg⟩)
    oneofs := by
      intro o ho
      rw [hdescriptor] at ho
      rw [(hbuilt.oneofs o ho).2.2, ← hdescriptor, ← hm.fields, List.filter_map, List.map_map]
      rfl }

/-- **Plans and layout fit together.** A message that was built is compiled: there is a plan for
each field of the descriptor, in its order, and the layout is that of the description. In the tables
of the marshaller every slot of the layout, those of supertypes included, is bound to a plan of its
own, field numbers lead to their plans, and oneofs to their members. Whatever is read by these
tables, each record at a time, is done at positions within range, and every value that was decoded
goes into one slot of the instance. -/
theorem TypeInfo.plans_fit {ref : TypeRef} {built : BuiltMessage}
    (hinfo : ref.info? env = some info)
    (hbuild : (build env resolve ref).result = .ok (.message built)) :
    ∃ message m t, info.message? = some message ∧
      MessageMarshaller.compile env info built = .ok m ∧ m.descriptor = built.descriptor ∧
      m.plans.map (·.field) = built.descriptor.fields ∧
      Layout.ofInfo env info message = .ok m.layout ∧ m.tables? = some t ∧ m.Fits t ∧
      (∀ reg nested input e rest d, (m.readRecord reg nested input).result = .ok (e, rest) →
        d.slots.length = m.plans.length → t.step? m d e = some (Draft.apply m d e) ∧
          (Draft.apply m d e).slots.length = m.plans.length) ∧
      ∀ reg nested input, t.decode? m reg nested input = some
        ((m.decodeWith reg nested input).result.map fun i ↦ (i, m.plans.map fun _ ↦ none)) := by
  obtain ⟨message, hmessage⟩ : ∃ message, info.message? = some message := by
    obtain ⟨_, -, ⟨message, _, hkind, -, -⟩ | ⟨_, _, _, heq, -⟩⟩ := build_eq_ok hinfo hbuild
    · exact ⟨message, by rw [message?, hkind]⟩
    · cases heq
  obtain ⟨name, hmade⟩ := buildMessage_of_build hinfo hmessage hbuild
  obtain ⟨m, hcompile⟩ := MessageMarshaller.exists_compile hmessage hmade
  have hm : m.MadeOf env resolve info message := ⟨hmessage, name, built, hmade, hcompile⟩
  obtain ⟨-, hdescriptor, -, -⟩ := MessageMarshaller.compile_eq_ok hcompile
  obtain ⟨t, ht, hfits⟩ := hm.complete.exists_fits
  refine ⟨message, m, t, hmessage, hcompile, hdescriptor, hdescriptor ▸ hm.fields, hm.layout, ht,
    hfits, fun reg nested input e rest d he hlen ↦ ?_, hm.complete.decode?_eq ht⟩
  exact ⟨hfits.step?_eq he hlen, (MessageMarshaller.length_apply d e).trans hlen⟩

end

/-- Plays keep the room of an event in the slot of its plan, behind the number of its field. -/
theorem Theatre.plans_fit_play : ∃ info built m t,
    (TypeRef.of play).info? environment = some info ∧
    (build environment resolve (.of play)).result = .ok (.message built) ∧
    MessageMarshaller.compile environment info built = .ok m ∧
    m.plans.map (fun p ↦ (p.field.number, p.path, p.field.oneof)) =
      [(1, [0, 0], some "venue"), (2, [0, 1], some "venue"), (3, [1], none), (4, [2], none),
        (5, [3], none), (6, [4], none)] ∧
    m.tables? = some t ∧ m.Fits t ∧ MemberSlot.at? t.slots [0, 1] = some (some 1) ∧
    t.byNumber[2]? = some 1 := by
  have hcompiles : ((build environment resolve (.of play)).result.toOption.bind
      Built.message?).bind (fun b ↦ ((TypeRef.of play).info? environment).bind fun info ↦
        (MessageMarshaller.compile environment info b).toOption.map fun m ↦
          m.plans.map fun p ↦ (p.field.number, p.path, p.field.oneof)) =
      some [(1, [0, 0], some "venue"), (2, [0, 1], some "venue"), (3, [1], none), (4, [2], none),
        (5, [3], none), (6, [4], none)] := by
    decide +kernel
  obtain ⟨built, hbuilt, hcompiles⟩ := Option.bind_eq_some_iff.1 hcompiles
  obtain ⟨info, hinfo, hcompiles⟩ := Option.bind_eq_some_iff.1 hcompiles
  obtain ⟨m, hm, hplans⟩ := Option.map_eq_some_iff.1 hcompiles
  have hcompile := toOption_eq_some.1 hm
  have hbuild : (build environment resolve (.of play)).result = .ok (.message built) := by
    obtain ⟨b, hb, hmessage⟩ := Option.bind_eq_some_iff.1 hbuilt
    cases b with
    | enum _ => cases hmessage
    | message _ =>
      cases hmessage
      exact toOption_eq_some.1 hb
  obtain ⟨-, m', t, -, hcompile', -, -, -, ht, hfits, -⟩ := TypeInfo.plans_fit hinfo hbuild
  obtain rfl := Except.ok.inj (hcompile.symm.trans hcompile')
  have hroom : (m.plans.map fun p ↦ (p.field.number, p.path, p.field.oneof))[1]? =
      some (2, [0, 1], some "venue") := by
    rw [hplans]
    rfl
  obtain ⟨p, hp, heq⟩ := Option.map_eq_some_iff.1 (List.getElem?_map ▸ hroom)
  obtain ⟨hnumber, heq⟩ := Prod.mk.inj heq
  obtain ⟨hpath, -⟩ := Prod.mk.inj heq
  exact ⟨info, built, m, t, hinfo, hbuild, hcompile, hplans, ht, hfits, hpath ▸ hfits.leads 1 p hp,
    (hfits.numbers 2 1).2 ⟨p, hp, hnumber⟩⟩

end ProtoSchema
