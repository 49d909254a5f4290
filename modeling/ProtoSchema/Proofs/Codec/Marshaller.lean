import ProtoSchema.Proofs.Building.Message
import ProtoSchema.Proofs.Codec.Message

/-!
# Compiled marshallers are well formed

A marshaller is compiled from a checked message, so what the checks make sure of holds of its plans.
The references of the plans lead to types that the schema names.
-/

set_option autoImplicit false

namespace ProtoSchema

/-- What a resolver says about a type. -/
def Resolver.Names (resolve : Resolver) (t : TypeId) (name : String) (sort : TypeSort) : Prop :=
  resolve t = some ⟨name, sort⟩

/-- The elements of a plan are of the type that its field refers to by name, where `P` tells which
types bear a name and of what sort they are. -/
def Plan.RefersTo (P : TypeId → String → TypeSort → Prop) (p : Plan) : Prop :=
  match p.element with
  | .scalar s => p.field.type = .scalar s
  | .enum target _ => ∃ name, p.field.type = .enum name ∧ P target name .enum
  | .message target => ∃ name, p.field.type = .message name ∧ P target name .message

/-! ## From fields to plans

A plan is made of one field and its binding, and looks at nothing else. So a sound field gives a
plan that is well formed, and a binding that refers to a type gives one that refers to it. -/

theorem Plan.RefersTo.mono {P Q : TypeId → String → TypeSort → Prop}
    (hPQ : ∀ t name sort, P t name sort → Q t name sort) {p : Plan} (h : p.RefersTo P) :
    p.RefersTo Q := by
  unfold RefersTo at h ⊢
  cases he : p.element with
  | scalar s => rwa [he] at h
  | enum target isOpen =>
    rw [he] at h
    obtain ⟨name, htype, hname⟩ := h
    exact ⟨name, htype, hPQ _ _ _ hname⟩
  | message target =>
    rw [he] at h
    obtain ⟨name, htype, hname⟩ := h
    exact ⟨name, htype, hPQ _ _ _ hname⟩

/-- The elements of a plan are those of its field's type, with the native type in place of the
qualified name. -/
def Element.Describes (e : Element) (type : ValueType) (b : Binding) : Prop :=
  match type with
  | .scalar s => e = .scalar s
  | .enum _ => ∃ t, b.target = some t ∧ e = .enum t b.openEnum
  | .message _ => ∃ t, b.target = some t ∧ e = .message t

theorem Plan.refersTo_of_describes {p : Plan} {b : Binding} {resolve : Resolver}
    (h : p.element.Describes p.field.type b) (hb : b.Refers resolve p.field.type) :
    p.RefersTo resolve.Names := by
  unfold RefersTo
  cases htype : p.field.type with
  | scalar s =>
    rw [htype] at h
    rw [show p.element = .scalar s from h]
  | enum name =>
    rw [htype] at h hb
    obtain ⟨t, ht, he⟩ := h
    obtain ⟨t', ht', hr⟩ := hb
    cases ht.symm.trans ht'
    rw [he]
    exact ⟨name, rfl, hr⟩
  | message name =>
    rw [htype] at h hb
    obtain ⟨t, ht, he⟩ := h
    obtain ⟨t', ht', hr⟩ := hb
    cases ht.symm.trans ht'
    rw [he]
    exact ⟨name, rfl, hr⟩

theorem planOf_eq_ok {info : TypeInfo} {layout : Layout} {f : Field} {b : Binding} {p : Plan}
    (h : planOf info layout f b = .ok p) :
    p.field = f ∧ p.path = b.path ∧ layout.hasField p.path = true ∧
      p.element.Describes f.type b := by
  have hdone : ∀ e, (if layout.hasField b.path then Except.ok (⟨f, e, b.path⟩ : Plan)
      else .error (SchemaError.invalidFlatten info.path f.name)) = .ok p →
      p.field = f ∧ p.path = b.path ∧ layout.hasField p.path = true ∧ p.element = e := by
    intro e he
    obtain ⟨hpath, he⟩ := ite_ok_eq_ok.1 he
    cases he
    exact ⟨rfl, rfl, hpath, rfl⟩
  unfold planOf at h
  dsimp only at h
  split at h
  · next s ht =>
    obtain ⟨hf, hpath, hfield, he⟩ := hdone _ h
    exact ⟨hf, hpath, hfield, by rw [ht]; exact he⟩
  · next ht htarget =>
    obtain ⟨hf, hpath, hfield, he⟩ := hdone _ h
    exact ⟨hf, hpath, hfield, by rw [ht]; exact ⟨_, htarget, he⟩⟩
  · next ht htarget =>
    obtain ⟨hf, hpath, hfield, he⟩ := hdone _ h
    exact ⟨hf, hpath, hfield, by rw [ht]; exact ⟨_, htarget, he⟩⟩
  · cases h

theorem Plan.wellFormed_of_sound {p : Plan} {b : Binding} (hf : p.field.Sound)
    (he : p.element.Describes p.field.type b) : p.WellFormed where
  number := number_of_isFieldNumber hf.number
  packed h := by
    have hpack := hf.packed h
    cases ht : p.field.type with
    | scalar s =>
      rw [ht] at hpack he
      rw [show p.element = .scalar s from he]
      exact s.isPackable_iff.1 hpack
    | enum name =>
      rw [ht] at he
      obtain ⟨t, -, he⟩ := he
      rw [he, Element.wireType]
      decide
    | message name =>
      rw [ht] at hpack
      cases hpack
  mapKey := hf.mapKey
  default d hd := by
    have htakes := hf.default d hd
    cases ht : p.field.type with
    | scalar s =>
      rw [ht] at htakes he
      rw [show p.element = .scalar s from he]
      exact htakes
    | enum name =>
      rw [ht] at htakes he
      obtain ⟨t, -, he⟩ := he
      obtain ⟨name, n, rfl⟩ := htakes
      rw [he]
      exact ⟨.enum n, rfl⟩
    | message name =>
      rw [ht] at htakes
      exact htakes.elim
  oneof := hf.oneof

/-- A compiled marshaller has the layout of its description, and a plan for each field of its
descriptor. -/
theorem MessageMarshaller.compile_eq_ok {env : Environment} {info : TypeInfo}
    {built : BuiltMessage} {m : MessageMarshaller}
    (h : MessageMarshaller.compile env info built = .ok m) :
    m.type = info.type ∧ m.descriptor = built.descriptor ∧
      (∃ message, info.message? = some message ∧ Layout.ofInfo env info message = .ok m.layout) ∧
      List.Forall₂ (fun fb p ↦ planOf info m.layout fb.1 fb.2 = .ok p)
        (built.descriptor.fields.zip built.bindings) m.plans := by
  unfold MessageMarshaller.compile at h
  split at h
  · next message hinfo =>
    obtain ⟨layout, hlayout, h⟩ := bind_eq_ok.1 h
    obtain ⟨plans, hplans, h⟩ := bind_eq_ok.1 h
    cases h
    exact ⟨rfl, rfl, ⟨message, hinfo, hlayout⟩, mapM_eq_ok.1 hplans⟩
  · cases h

theorem MessageMarshaller.fields_of_compile {env : Environment} {info : TypeInfo}
    {built : BuiltMessage} {m : MessageMarshaller} {resolve : Resolver} (hb : built.Sound resolve)
    (h : MessageMarshaller.compile env info built = .ok m) :
    m.plans.map (·.field) = m.descriptor.fields := by
  obtain ⟨-, hdescriptor, -, hall⟩ := compile_eq_ok h
  have hzip : m.plans.map (·.field)
      = (built.descriptor.fields.zip built.bindings).map Prod.fst := by
    rw [← List.forall₂_eq_eq_eq, List.forall₂_map_left_iff, List.forall₂_map_right_iff]
    exact hall.flip.imp fun p fb h ↦ (planOf_eq_ok h).1
  rw [hzip, List.map_fst_zip (Nat.le_of_eq hb.length_eq), hdescriptor]

/-- **Compiled marshallers are well formed**, and their plans refer to the named types. -/
theorem MessageMarshaller.compile_sound {env : Environment} {info : TypeInfo} {built : BuiltMessage}
    {m : MessageMarshaller} {resolve : Resolver} (hb : built.Sound resolve)
    (h : MessageMarshaller.compile env info built = .ok m) :
    m.type = info.type ∧ m.WellFormed ∧ ∀ p ∈ m.plans, p.RefersTo resolve.Names := by
  obtain ⟨htype, hdescriptor, -, hall⟩ := compile_eq_ok h
  have hplan : ∀ p ∈ m.plans, ∃ b, m.layout.hasField p.path = true ∧ p.field.Sound ∧
      p.element.Describes p.field.type b ∧ b.Refers resolve p.field.type := by
    intro p hp
    obtain ⟨⟨f, b⟩, hfb, hof⟩ := exists_of_forall₂_right hall hp
    obtain ⟨rfl, -, hpath, he⟩ := planOf_eq_ok hof
    obtain ⟨hf, hrefers⟩ := hb.fields _ b hfb
    exact ⟨b, hpath, hf, he, hrefers⟩
  have hpaths : m.plans.map (·.path) = built.bindings.map (·.path) := by
    have hzip : m.plans.map (·.path)
        = (built.descriptor.fields.zip built.bindings).map (·.2.path) := by
      rw [← List.forall₂_eq_eq_eq, List.forall₂_map_left_iff, List.forall₂_map_right_iff]
      exact hall.flip.imp fun p fb h ↦ (planOf_eq_ok h).2.1
    have hsnd := List.map_snd_zip (Nat.le_of_eq hb.length_eq.symm)
    rw [hzip, ← hsnd, List.map_map, hsnd]
    rfl
  refine ⟨htype, ⟨?_, ?_, ?_, ?_⟩, ?_⟩
  · intro p hp
    obtain ⟨b, -, hf, he, -⟩ := hplan p hp
    exact Plan.wellFormed_of_sound hf he
  · have hnumbers : m.plans.map (·.field.number) = built.descriptor.fields.map (·.number) := by
      rw [← hdescriptor, ← fields_of_compile hb h, List.map_map]
      rfl
    rw [HasDistinctNumbers, hnumbers, List.nodup_iff_pairwise_ne, List.pairwise_map]
    exact hb.differs.imp And.left
  · rw [hpaths]
    exact hb.paths
  · intro p hp
    obtain ⟨b, hpath, -⟩ := hplan p hp
    exact hpath
  · intro p hp
    obtain ⟨b, -, -, he, hrefers⟩ := hplan p hp
    exact p.refersTo_of_describes he hrefers

end ProtoSchema
