import ProtoSchema.Codec.Marshaller
import ProtoSchema.Proofs.Building.Message
import ProtoSchema.Proofs.Types.Inlining

/-!
# What building asks the resolver

To build a type is to ask for its own name and for the names of the types that its fields refer to,
of its own or of a flattened supertype. No other name makes a difference: two resolvers that give
these the same names build the same.

This is also why building does not fail for want of type information when those names are there. A
resolver that lacks other names may be completed, and with a complete resolver the question does not
arise at all, so no proof here has to follow which name is asked for where. What building fails for
then lies in the type alone.
-/

set_option autoImplicit false

namespace ProtoSchema

/-! ## Steps that avoid an error

A step avoids some errors if it does not fail with one of them. That passes to sequences of such
steps, which is all that is needed to follow building from one check to the next. -/

/-- A step does not fail with any of certain errors. -/
def Avoids {ε α : Type} (bad : ε → Prop) (x : Except ε α) : Prop := ∀ e, x = .error e → ¬bad e

namespace Avoids

variable {ε ε' α β : Type} {bad : ε → Prop}

@[simp] theorem ok (a : α) : Avoids bad (.ok a : Except ε α) := by
  intro e h
  cases h

@[simp] theorem error_iff {e : ε} : Avoids bad (.error e : Except ε α) ↔ ¬bad e := by
  constructor
  · intro h
    exact h e rfl
  · intro h e' he
    cases he
    exact h

theorem bind {x : Except ε α} {f : α → Except ε β} (hx : Avoids bad x)
    (hf : ∀ a, x = .ok a → Avoids bad (f a)) : Avoids bad (x >>= f) := by
  intro e h
  rcases bind_eq_error.1 h with h | ⟨a, ha, h⟩
  · exact hx e h
  · exact hf a ha e h

theorem map {x : Except ε α} (f : α → β) (hx : Avoids bad x) : Avoids bad (x.map f) := by
  intro e h
  exact hx e (map_eq_error.1 h)

theorem mapError_iff {bad : ε' → Prop} {f : ε → ε'} {x : Except ε α} :
    Avoids bad (x.mapError f) ↔ Avoids (fun e ↦ bad (f e)) x := by
  cases x with
  | ok a => exact iff_of_true (ok a) (ok a)
  | error e => rw [mapError_error, error_iff, error_iff]

theorem mono {bad' : ε → Prop} {x : Except ε α} (h : ∀ e, bad e → bad' e) (hx : Avoids bad' x) :
    Avoids bad x := fun e he hbad ↦ hx e he (h e hbad)

theorem mapM {f : α → Except ε β} {as : List α} (h : ∀ a ∈ as, Avoids bad (f a)) :
    Avoids bad (as.mapM f) := by
  intro e he
  obtain ⟨a, ha, he⟩ := exists_of_mapM_eq_error he
  exact h a ha e he

end Avoids

/-- A type is refused because nothing is known about it. -/
@[simp] def SchemaError.IsMissing : SchemaError → Prop
  | missingTypeInfo _ => True
  | _ => False

/-- A type is refused for what becomes of other types: nothing is known about it, or another one
claims its name. -/
@[simp] def SchemaError.IsShared : SchemaError → Prop
  | missingTypeInfo _ | duplicateTypeName _ _ _ => True
  | _ => False

/-- A check does not fail for want of type information. -/
abbrev Informed {α : Type} (x : Except SchemaError α) : Prop := Avoids SchemaError.IsMissing x

/-- A check fails only for what it finds in the type itself. -/
abbrev Confined {α : Type} (x : Except SchemaError α) : Prop := Avoids SchemaError.IsShared x

theorem Confined.informed {α : Type} {x : Except SchemaError α} (h : Confined x) : Informed x := by
  refine h.mono fun e he ↦ ?_
  cases e with
  | missingTypeInfo _ | duplicateTypeName _ _ _ => trivial
  | _ => exact he

/-! ## Resolvers that agree

Each check that names a type asks for the element of the shape and for nothing else. The element is
the same whatever the resolver is, so two resolvers need only agree on the references of a
declaration. -/

variable {env : Environment} {resolve resolve' : Resolver} {typePath : String}

namespace Member

variable {m : Member}

/-- The elements of a field mention what its declared shape mentions. -/
theorem references_of_shape {s : Shape} (h : m.shape typePath = .ok s) :
    s.element.references ⊆ m.type.references := by
  have htype := type_of_shape h
  cases hc : s.cardinality with
  | required =>
    rw [hc] at htype
    rcases htype with htype | htype <;> rw [htype] <;> exact List.Subset.refl _
  | optional =>
    rw [hc] at htype
    rcases htype with htype | ⟨htype, -⟩ <;> rw [htype] <;> exact List.Subset.refl _
  | repeated =>
    rw [hc] at htype
    rw [htype]
    exact List.Subset.refl _
  | map =>
    rw [hc] at htype
    obtain ⟨k, -, htype⟩ := htype
    rw [htype]
    exact List.subset_append_right _ _

theorem elementType_congr {path : List Nat} {element : FieldType}
    (h : ∀ ref ∈ element.references, resolve ref.type = resolve' ref.type) :
    m.elementType env resolve typePath path element =
      m.elementType env resolve' typePath path element := by
  cases element with
  | scalar natural => rfl
  | enum ref isOpen =>
    have href : resolve ref.type = resolve' ref.type := h ref (List.mem_singleton_self ref)
    simp only [elementType, Resolver.name, href]
  | message ref =>
    have href : resolve ref.type = resolve' ref.type := h ref (List.mem_singleton_self ref)
    simp only [elementType, Resolver.name, href]
  | optional _ | repeated _ | map _ _ => rfl

theorem toField_congr {path : List Nat}
    (h : ∀ ref ∈ m.type.references, resolve ref.type = resolve' ref.type) :
    m.toField env resolve typePath path = m.toField env resolve' typePath path := by
  unfold toField
  cases hs : m.shape typePath with
  | error e => rfl
  | ok s =>
    have helement : m.elementType env resolve typePath path s.element =
        m.elementType env resolve' typePath path s.element :=
      elementType_congr fun ref href ↦ h ref (references_of_shape hs href)
    simp only [ok_bind, helement]

end Member

theorem checkLeaves_congr {groups : List (String × TypeId)} {leaves : List Leaf}
    (h : ∀ leaf ∈ leaves, ∀ ref ∈ leaf.references, resolve ref.type = resolve' ref.type) :
    checkLeaves env resolve typePath groups leaves =
      checkLeaves env resolve' typePath groups leaves := by
  induction leaves generalizing groups with
  | nil => rfl
  | cons leaf rest ih =>
    obtain ⟨hleaf, hrest⟩ := List.forall_mem_cons.1 h
    cases leaf with
    | field path owner m =>
      have hfield : m.toField env resolve typePath path = m.toField env resolve' typePath path :=
        Member.toField_congr hleaf
      simp only [checkLeaves, hfield, ih hrest]
    | invalid m | cycle m => rfl

theorem buildMessage_congr {info : TypeInfo} {message : MessageInfo} {name : String}
    (hmessage : info.message? = some message)
    (h : ∀ ref, info.Refers env ref → resolve ref.type = resolve' ref.type) :
    buildMessage env resolve info message name = buildMessage env resolve' info message name := by
  have hleaves : ∀ leaf ∈ info.leaves env message, ∀ ref ∈ leaf.references,
      resolve ref.type = resolve' ref.type := by
    intro leaf hleaf ref href
    refine h ref (TypeInfo.mem_references.1 ?_)
    rw [TypeInfo.references, hmessage]
    exact List.mem_flatMap.2 ⟨leaf, hleaf, href⟩
  simp only [buildMessage, checkLeaves_congr hleaves]

/-- **A type is built by the names of what it refers to.** -/
theorem build_congr {ref : TypeRef} {info : TypeInfo} (hinfo : ref.info? env = some info)
    (hself : resolve ref.type = resolve' ref.type)
    (h : ∀ r, info.Refers env r → resolve r.type = resolve' r.type) :
    build env resolve ref = build env resolve' ref := by
  have hmessage : ∀ message name, info.kind = .message message →
      buildMessage env resolve info message name = buildMessage env resolve' info message name := by
    intro message name hkind
    refine buildMessage_congr ?_ h
    rw [TypeInfo.message?, hkind]
  simp only [build, hinfo, hself]
  cases resolve' ref.type with
  | none => rfl
  | some resolved =>
    dsimp only
    split
    · rfl
    · cases hkind : info.kind with
      | message message => simp only [hmessage message _ hkind]
      | enum variants => rfl

/-! ## Complete resolvers

With a resolver that names every type, no check can complain about a missing name. Every other
complaint is about the type at hand, the one about a claimed name excepted, which does not come from
building. -/

/-- Names every type, those that have no name yet in whatever way. -/
def Resolver.completed (resolve : Resolver) : Resolver := fun t ↦
  some ((resolve t).getD ⟨"", .message⟩)

theorem Resolver.completed_eq {t : TypeId} {resolved : Resolved} (h : resolve t = some resolved) :
    resolve.completed t = resolve t := by
  rw [completed, h]
  rfl

namespace Member

variable {m : Member}

theorem confined_shape : Confined (m.shape typePath) := by
  unfold shape
  dsimp only
  repeat' split
  all_goals simp

theorem confined_elementType {path : List Nat} {element : FieldType} :
    Confined (m.elementType env resolve.completed typePath path element) := by
  have hname : ∀ type expected,
      Confined (resolve.completed.name env typePath m type expected) := by
    intro type expected
    unfold Resolver.name Resolver.completed
    dsimp only
    split <;> simp
  cases element with
  | scalar natural =>
    rw [elementType]
    repeat' split
    all_goals simp
  | enum ref isOpen =>
    refine (hname _ _).bind fun name _ ↦ ?_
    split <;> simp
  | message ref =>
    refine (hname _ _).bind fun name _ ↦ ?_
    split <;> simp
  | optional _ | repeated _ | map _ _ => simp [elementType]

theorem confined_packing {c : Cardinality} {type : ValueType} :
    Confined (m.packing typePath c type) := by
  unfold packing
  dsimp only
  repeat' split
  all_goals simp

theorem confined_checkedDefault {s : Shape} {type : ValueType} :
    Confined (m.checkedDefault env typePath s type) := by
  unfold checkedDefault
  split
  · exact .ok _
  · rw [Confined, Avoids.mapError_iff]
    intro e _
    exact id

theorem confined_checkedOneof {s : Shape} : Confined (m.checkedOneof typePath s) := by
  unfold checkedOneof
  repeat' split
  all_goals simp

theorem confined_toField {path : List Nat} :
    Confined (m.toField env resolve.completed typePath path) := by
  have hchecks : ∀ number, Confined (do
      let shape ← m.shape typePath
      let element ← m.elementType env resolve.completed typePath path shape.element
      let packed ← m.packing typePath shape.cardinality element.1
      let default ← m.checkedDefault env typePath shape element.1
      let oneof ← m.checkedOneof typePath shape
      return ((⟨number, m.fieldName,
        if shape.cardinality = .map then .lengthDelimited else element.1.wireType,
        shape.cardinality, element.1, shape.mapKey, default, shape.presence, packed, oneof,
        m.docs⟩ : Field), element.2)) := by
    intro number
    refine confined_shape.bind fun s _ ↦ ?_
    refine confined_elementType.bind fun _ _ ↦ ?_
    refine confined_packing.bind fun _ _ ↦ ?_
    refine confined_checkedDefault.bind fun _ _ ↦ ?_
    exact confined_checkedOneof.bind fun _ _ ↦ .ok _
  unfold toField
  dsimp only
  split
  · split
    · split
      · simp
      · exact hchecks _
    · simp
  · simp

end Member

theorem confined_checkLeaves {groups : List (String × TypeId)} {leaves : List Leaf} :
    Confined (checkLeaves env resolve.completed typePath groups leaves) := by
  induction leaves generalizing groups with
  | nil => exact .ok _
  | cons leaf rest ih =>
    cases leaf with
    | invalid m | cycle m => simp [checkLeaves]
    | field path owner m =>
      rw [checkLeaves]
      refine Member.confined_toField.bind fun built _ ↦ ?_
      obtain ⟨f, b⟩ := built
      dsimp only
      -- However the oneof of the field is recorded, the other leaves are checked next.
      have hrest : ∀ groups declared, Confined (do
          return declared ::
            (← checkLeaves env resolve.completed typePath groups rest)) := by
        intro groups declared
        exact ih.bind fun _ _ ↦ .ok _
      split
      · exact hrest _ _
      · split
        · exact hrest _ _
        · split
          · exact hrest _ _
          · exact Avoids.error_iff.2 id

theorem confined_checkDistinct {earlier fields : List Field} :
    Confined (checkDistinct typePath earlier fields) := by
  induction fields generalizing earlier with
  | nil => exact .ok _
  | cons f rest ih =>
    rw [checkDistinct]
    repeat' split
    all_goals simp [ih]

theorem confined_checkGroupNames {fields members : List Field} :
    Confined (checkGroupNames typePath fields members) := by
  induction members with
  | nil => exact .ok _
  | cons f rest ih =>
    rw [checkGroupNames]
    repeat' split
    all_goals simp [ih]

theorem confined_buildMessage {info : TypeInfo} {message : MessageInfo} {name : String} :
    Confined (buildMessage env resolve.completed info message name) := by
  have hparams : Confined (checkParams info.path message) := by
    unfold checkParams
    split <;> simp
  refine hparams.bind fun _ _ ↦ ?_
  refine confined_checkLeaves.bind fun declared _ ↦ ?_
  refine confined_checkDistinct.bind fun _ _ ↦ ?_
  exact confined_checkGroupNames.bind fun _ _ ↦ .ok _

theorem confined_checkVariants {earlier : List EnumValue} {variants : List Variant} :
    Confined (checkVariants typePath earlier variants) := by
  induction variants generalizing earlier with
  | nil => exact .ok _
  | cons v rest ih =>
    rw [checkVariants]
    repeat' split
    all_goals simp [ih]

theorem confined_buildEnum {info : TypeInfo} {variants : List Variant} {name : String} :
    Confined (buildEnum info variants name) := by
  unfold buildEnum
  split
  · simp
  · exact confined_checkVariants.bind fun _ _ ↦ .ok _

/-- Building a described type fails only for what it finds in it if all the names are there. -/
theorem confined_build {ref : TypeRef} {info : TypeInfo} (hinfo : ref.info? env = some info)
    (hself : (resolve ref.type).isSome = true)
    (h : ∀ r, info.Refers env r → (resolve r.type).isSome = true) :
    Confined (build env resolve ref).result := by
  have hcompleted : ∀ t, (resolve t).isSome = true → resolve t = resolve.completed t := by
    intro t ht
    obtain ⟨resolved, hresolved⟩ := Option.isSome_iff_exists.1 ht
    exact (Resolver.completed_eq hresolved).symm
  rw [build_congr hinfo (hcompleted _ hself) fun r hr ↦ hcompleted _ (h r hr)]
  unfold build
  rw [hinfo]
  simp only [Resolver.completed]
  split
  · simp
  · split
    · rw [Logged.result_bind]
      refine confined_buildMessage.bind fun built _ ↦ ?_
      rw [Logged.result_bind]
      exact .ok _
    · rw [Logged.result_map]
      exact confined_buildEnum.map _

/-! ## Marshallers

Where the binding of a field refers to a type, its plan has the target that it needs. -/

mutual

theorem Layout.confined_partOf (typePath : String) (i : Inlined) :
    Confined (partOf typePath i) := by
  match i with
  | .field owner member => simp [partOf]
  | .parent member info message members =>
    rw [partOf]
    exact Avoids.bind (Layout.confined_partsOf info.path members) fun _ _ ↦ .ok _
  | .invalid member | .cycle member => simp [partOf]

theorem Layout.confined_partsOf (typePath : String) (members : List Inlined) :
    Confined (partsOf typePath members) := by
  match members with
  | [] => simp [partsOf]
  | i :: members =>
    rw [partsOf]
    refine Avoids.bind (Layout.confined_partOf typePath i) fun _ _ ↦ ?_
    exact Avoids.bind (Layout.confined_partsOf typePath members) fun _ _ ↦ .ok _

end

theorem confined_planOf {info : TypeInfo} {layout : Layout} {f : Field} {b : Binding}
    (hb : b.Refers resolve f.type) : Confined (planOf info layout f b) := by
  have hdone : ∀ e, Confined (if layout.hasField b.path then Except.ok (⟨f, e, b.path⟩ : Plan)
      else .error (SchemaError.invalidFlatten info.path f.name)) := by
    intro e
    split <;> simp
  unfold planOf
  cases htype : f.type with
  | scalar s => exact hdone _
  | enum name =>
    rw [htype] at hb
    obtain ⟨t, ht, -⟩ := hb
    rw [ht]
    exact hdone _
  | message name =>
    rw [htype] at hb
    obtain ⟨t, ht, -⟩ := hb
    rw [ht]
    exact hdone _

theorem confined_compile {info : TypeInfo} {message : MessageInfo} {built : BuiltMessage}
    (hmessage : info.message? = some message) (hbuilt : built.Sound resolve) :
    Confined (MessageMarshaller.compile env info built) := by
  unfold MessageMarshaller.compile
  rw [hmessage]
  dsimp only
  refine Avoids.bind ?_ fun layout _ ↦ ?_
  · exact (Layout.confined_partsOf _ _).bind fun _ _ ↦ .ok _
  · refine Avoids.bind (Avoids.mapM fun ⟨f, b⟩ hfb ↦ ?_) fun _ _ ↦ .ok _
    exact confined_planOf (hbuilt.fields f b hfb).2

end ProtoSchema
