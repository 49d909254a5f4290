import ProtoSchema.Proofs.Building.Spreading
import ProtoSchema.Proofs.Codec.Plain
import ProtoSchema.Proofs.Codec.RoundTrip

/-!
# Types that adapters describe

An adapter describes a foreign type as any other message is described, and its marshaller is made of
the description by the same checks. Since the members of the built-in adapters are scalars and lists
of scalars that declare nothing but a number, their plans can be told from the members, whatever
else is described and whatever the type is called in the schema. So a registry that adapts a type
reads it as a plain message and hands what it reads to the factory of the adapter.
-/

set_option autoImplicit false

namespace ProtoSchema

open Wire

/-- The registry has a marshaller of the described type, and it is made of the description. -/
def Registry.Adapts (reg : Registry) (info : TypeInfo) : Prop :=
  ∃ m env resolve message, reg.messageMarshaller? info.type = some m ∧
    m.MadeOf env resolve info message

theorem Registry.Adapts.exists_madeOf {reg : Registry} {info : TypeInfo} {message : MessageInfo}
    (h : reg.Adapts info) (hmessage : info.message? = some message) : ∃ m env resolve,
    reg.messageMarshaller? info.type = some m ∧ m.MadeOf env resolve info message := by
  obtain ⟨m, env, resolve, described, hm, hmade⟩ := h
  obtain rfl : described = message := Option.some.inj (hmade.kind.symm.trans hmessage)
  exact ⟨m, env, resolve, hm, hmade⟩

/-! ## Plans of scalars

A member that declares a number only passes its checks in one way, whatever environment and resolver
it is checked with. So its field, and with it its plan, can be written down. -/

/-- The field of a single scalar that may be left out. -/
def Field.single (number : Nat) (name : String) (s : Scalar) : Field :=
  ⟨number, name, s.wireType, .optional, .scalar s, none, none, false, false, none, none⟩

/-- The field of a list of scalars, packed if they are numbers. -/
def Field.list (number : Nat) (name : String) (s : Scalar) : Field :=
  ⟨number, name, s.wireType, .repeated, .scalar s, none, none, false, s.isPackable, none, none⟩

section

variable {env : Environment} {resolve : Resolver} {typePath : String} {path : List Nat} {f : Field}
  {b : Binding} {name : String} {number : Nat} {s : Scalar} {getter : Getter}

/-- A member that declares a scalar and a number, and nothing else. -/
def Member.single (number : Nat) (name : String) (s : Scalar) (getter : Getter) : Member :=
  { name, kind := .field (.scalar s), getter, number := some number }

/-- A member that declares a list of scalars and a number, and nothing else. -/
def Member.list (number : Nat) (name : String) (s : Scalar) (getter : Getter) : Member :=
  { name, kind := .field (.repeated (.scalar s)), getter, number := some number }

theorem Member.toField_single
    (h : (Member.single number name s getter).toField env resolve typePath path = .ok (f, b)) :
    f = .single number name s := by
  obtain ⟨shape, hm⟩ := passes_of_toField h
  clear h
  cases f
  obtain ⟨⟨⟩, -, ⟨⟩, -, ⟨⟩, ⟨⟩, ⟨⟩, ⟨⟩, ⟨⟩, ⟨⟩, ⟨⟩, ⟨⟩, ⟨⟩, ⟨⟩⟩ := hm
  rfl

theorem Member.toField_list
    (h : (Member.list number name s getter).toField env resolve typePath path = .ok (f, b)) :
    f = .list number name s := by
  obtain ⟨shape, hm⟩ := passes_of_toField h
  clear h
  cases f
  obtain ⟨⟨⟩, -, ⟨⟩, -, ⟨⟩, ⟨⟩, ⟨⟩, ⟨⟩, ⟨⟩, ⟨⟩, ⟨⟩, ⟨⟩, ⟨⟩, ⟨⟩⟩ := hm
  rfl

end

/-- The plan of a field of scalars. -/
def Plan.ofScalar (f : Field) (s : Scalar) (path : List Nat) : Plan := ⟨f, .scalar s, path⟩

theorem Plan.isPlain_single (number : Nat) (name : String) (s : Scalar) (path : List Nat) :
    (ofScalar (.single number name s) s path).IsPlain :=
  ⟨⟨s, rfl⟩, .inl rfl, rfl, rfl⟩

theorem Plan.isPlain_list {number : Nat} {name : String} {s : Scalar} {path : List Nat}
    (hs : s.wireType ≠ .lengthDelimited) : (ofScalar (.list number name s) s path).IsPlain :=
  ⟨⟨s, rfl⟩, .inr ⟨rfl, hs⟩, rfl, rfl⟩

theorem Plan.eq_ofScalar {env : Environment} {resolve : Resolver} {typePath : String} {p : Plan}
    {path : List Nat} {owner : TypeId} {member : Member} {f : Field} {s : Scalar}
    (h : ∃ owner' member' b, Leaf.field path owner member = .field p.path owner' member' ∧
      member'.toField env resolve typePath p.path = .ok (p.field, b) ∧
      p.element.Describes p.field.type b)
    (hfield : ∀ f' b, member.toField env resolve typePath path = .ok (f', b) → f' = f)
    (htype : f.type = .scalar s) : p = ofScalar f s path := by
  obtain ⟨owner', member', b, hleaf, hchecked, hdescribes⟩ := h
  obtain ⟨field, element, path'⟩ := p
  cases hleaf
  obtain rfl := hfield _ _ hchecked
  rw [htype] at hdescribes
  rw [ofScalar, show element = .scalar s from hdescribes]

/-! ## Decoding through an adapter

The layout of such a description is flat, and its factory is handed the values at the positions of
its members. What the records say is known from plain messages. -/

theorem Layout.assembleParts_members {hand : List Nat → Option Value} {base : List Nat}
    {index : Nat} {members : List Member} :
    assembleParts hand base index (members.map fun m ↦ .field m.getter) =
      .ok (members.mapIdx fun k _ ↦ hand (base ++ [index + k])) := by
  induction members generalizing index with
  | nil => rw [List.map_nil, List.mapIdx_nil, assembleParts]
  | cons member rest ih =>
    rw [List.map_cons, List.mapIdx_cons, assembleParts, ih, ok_bind]
    simp only [Nat.add_zero, Nat.add_assoc, Nat.add_comm 1]
    rfl

section

variable {reg : Registry} {info : TypeInfo} {m : MessageMarshaller} {env : Environment}
  {resolve : Resolver} {message : MessageInfo} {t : TypeId} {input : Bytes}

/-- The factory of a plain message without supertypes is handed what the records say. -/
theorem MessageMarshaller.MadeOf.exists_values (hm : m.MadeOf env resolve info message)
    (hfields : message.HasFieldsOnly) (hplain : m.IsPlain) {levels : Nat} {effects : List Effect}
    (hread : (readAll (m.readRecord reg (reg.nestedAt levels)) input).result = .ok effects) :
    ∃ hand unknown, m.Hands (recordsOf input) hand ∧
      (reg.decodeAt levels m input).result = (message.factory ⟨info.path,
        message.members.map (·.name), message.members.mapIdx fun k _ ↦ hand [k],
        unknown⟩).mapError .factory := by
  obtain ⟨hand, hhand, hhands⟩ := hplain.exists_hands hm.wellFormed hread
  have hlayout := Except.ok.inj (hm.layout.symm.trans (hfields.layout_eq env info))
  refine ⟨hand, ⟨(m.keptOf reg input).flatMap (·.1)⟩, hhands, ?_⟩
  rw [result_decodeAt_of_readAll hread, hhand, ok_bind, hlayout, Layout.assemble,
    Layout.assembleParts_members, ok_bind]
  simp only [List.nil_append, Nat.zero_add]

theorem MessageMarshaller.IsPlain.exists_readAll_of_decode (hplain : m.IsPlain)
    (hm : reg.messageMarshaller? t = some m)
    (h : ∀ w, (reg.decode t input).result ≠ .error (.wire w)) :
    ∃ effects,
      (readAll (m.readRecord reg (reg.nestedAt nestingLimit)) input).result = .ok effects := by
  cases hread : (readAll (m.readRecord reg (reg.nestedAt nestingLimit)) input).result with
  | ok effects => exact ⟨effects, rfl⟩
  | error e =>
    obtain ⟨w, rfl⟩ := hplain.wire_of_readAll hread
    refine absurd (Registry.decode_eq_error hm ?_) (h w)
    rw [Registry.decodeAt_eq, Draft.result_decodeWith, hread, error_bind]

end

/-! ## Encoding through an adapter

What is written is written plan by plan. There are no unknown fields to be written behind the last
plan, since a description of an adapter has no holder for them. -/

theorem Scalar.ofPayload?_of_toPayload? {s : Scalar} {v : Value} {payload : Payload}
    (h : s.toPayload? v = some payload) : s.ofPayload? payload = some v := by
  cases s <;> cases v <;> cases h
  case int32.i32.refl n => rw [ofPayload?, toInt32_toInt64]
  case int64.i64.refl n => rw [ofPayload?, Int64.toInt64_toUInt64]
  case uint32.u32.refl n => rw [ofPayload?, UInt32.toUInt32_toUInt64]
  case sint32.i32.refl n => rw [ofPayload?, UInt32.toUInt32_toUInt64, ZigZag.decode32_encode32]
  case sint64.i64.refl n => rw [ofPayload?, ZigZag.decode64_encode64]
  case sfixed32.i32.refl n => rw [ofPayload?, Int32.toInt32_toUInt32]
  case sfixed64.i64.refl n => rw [ofPayload?, Int64.toInt64_toUInt64]
  case string.string.refl t => rw [ofPayload?, textOfBytes?_toUTF8, Option.map_some]
  case bool.bool.refl b => cases b <;> rfl
  all_goals rfl

section

variable {reg : Registry} {info : TypeInfo} {m : MessageMarshaller} {env : Environment}
  {resolve : Resolver} {message : MessageInfo} {i : Instance} {write : NestedWriter}
  {number : Nat} {name : String} {s : Scalar} {path : List Nat}

theorem MessageMarshaller.MadeOf.get?_eq (hm : m.MadeOf env resolve info message)
    (hfields : message.HasFieldsOnly) {k : Nat} {member : Member}
    (hk : message.members[k]? = some member) (i : Instance) :
    m.layout.get? i [k] = member.getter.read i := by
  have hlayout := Except.ok.inj (hm.layout.symm.trans (hfields.layout_eq env info))
  have hpart : m.layout.parts[k]? = some (.field member.getter) := by
    rw [hlayout, Layout.parts, List.getElem?_map, hk, Option.map_some]
  rw [Layout.get?, hpart]

/-- A message without supertypes and unknown fields is written plan by plan. -/
theorem MessageMarshaller.MadeOf.encode_eq (hm : m.MadeOf env resolve info message)
    (hfields : message.HasFieldsOnly) (hunknown : message.unknown = none)
    (hreg : reg.messageMarshaller? info.type = some m) (hi : i.type = info.type) :
    reg.encode i = writeAll (m.writePlan reg (reg.writeBelow i) i) m.plans := by
  have hlayout := Except.ok.inj (hm.layout.symm.trans (hfields.layout_eq env info))
  have hretained : m.retained i = .empty := by
    rw [retained, hlayout, Layout.unknown, hunknown]
    rfl
  rw [Registry.encode, hi, hreg]
  dsimp only
  rw [Registry.write_eq, encodeWith, if_pos (hi.trans hm.type.symm), hretained]
  cases writeAll (m.writePlan reg (reg.writeBelow i) i) m.plans with
  | ok b => exact congrArg Except.ok (List.append_nil b)
  | error e => rfl

/-- A single scalar is written if it is not zero. -/
theorem MessageMarshaller.writePlan_single {v : Value} {payload : Payload}
    (hv : m.layout.get? i path = some v) (hpayload : s.toPayload? v = some payload) :
    m.writePlan reg write i (.ofScalar (.single number name s) s path) =
      .ok (if v.isZero then [] else Record.encode ⟨number, payload⟩) := by
  have habsent : v.isAbsent = false := by
    cases v with
    | absent => cases s <;> cases hpayload
    | _ => rfl
  have hdefault : isDefault v none = v.isZero := by
    cases v with
    | enum n => cases s <;> cases hpayload
    | _ => rfl
  have hwritten : m.writeTagged reg write (.ofScalar (.single number name s) s path) number v =
      .ok (Record.encode ⟨number, payload⟩) := by
    simp only [writeTagged, writeElement, writeScalar, Plan.ofScalar, hpayload, map_ok,
      Record.encode, Record.tag, Element.wireType, Scalar.wireType_of_toPayload? hpayload]
  rw [writePlan, show m.layout.get? i (Plan.ofScalar _ s path).path = some v from hv]
  change (if v.isAbsent then _ else if isDefault v none then Except.ok [] else
    m.writeTagged reg write _ number v) = _
  rw [habsent, hdefault, hwritten]
  cases v.isZero <;> rfl

/-- A list of numbers is written as one packed run, if there is anything in it. -/
theorem MessageMarshaller.writePlan_list {vs : List Value} {payloads : List Payload}
    (hs : s.isPackable = true) (hvs : m.layout.get? i path = some (.list vs))
    (hpayloads : List.Forall₂ (fun v payload ↦ s.toPayload? v = some payload) vs payloads) :
    m.writePlan reg write i (.ofScalar (.list number name s) s path) =
      .ok (if vs.isEmpty then [] else
        Record.encode ⟨number, .bytes (payloads.flatMap Payload.encode)⟩) := by
  have hrun : writeAll (m.writeElement reg write (.ofScalar (.list number name s) s path)) vs =
      .ok (payloads.flatMap Payload.encode) := by
    clear hvs
    induction hpayloads with
    | nil => rfl
    | @cons v payload vs payloads hv _ ih =>
      have helement : m.writeElement reg write (.ofScalar (.list number name s) s path) v =
          .ok payload.encode := by
        simp only [writeElement, writeScalar, Plan.ofScalar, hv]
      rw [writeAll, helement, ok_bind, ih, ok_bind]
      rfl
  rw [writePlan, show m.layout.get? i (Plan.ofScalar _ s path).path = some (.list vs) from hvs]
  change (if vs.isEmpty then Except.ok [] else if s.isPackable then
    (writeAll (m.writeElement reg write _) vs).map _ else _) = _
  rw [hrun, hs]
  cases vs.isEmpty <;> rfl

end

/-! ## Registries that adapt types -/

/-- No two built-in adapters describe one type. -/
theorem eq_of_builtinAdapters {i j : TypeInfo} (hi : i ∈ builtinAdapters)
    (hj : j ∈ builtinAdapters) (h : i.type = j.type) : i = j := by
  have hnodup : (builtinAdapters.map (·.type)).Nodup := by decide
  exact List.inj_on_of_nodup_map hnodup hi hj h

/-- A type is adapted if it is registered by a unit in whose environment nothing else describes
it. -/
theorem CompilationUnit.adapts {info : TypeInfo} {u : CompilationUnit} {env : Environment}
    (honly : ∀ i ∈ env ++ builtinAdapters, i.type = info.type → i = info)
    (hregistered : ((u.registry env).messageMarshaller? info.type).isSome = true) :
    (u.registry env).Adapts info := by
  obtain ⟨m, hm⟩ := Option.isSome_iff_exists.1 hregistered
  obtain ⟨ref, resolve, i, message, hinfo, hmade⟩ :=
    (CompilationUnit.compiledFrom_registry hm).exists_madeOf
  have htype : i.type = info.type :=
    hmade.type.symm.trans ((u.compiled_registry env).closed.type_eq hm)
  obtain rfl := honly i (TypeRef.mem_of_info? hinfo) htype
  exact ⟨m, env, resolve, message, hm, hmade⟩

end ProtoSchema
