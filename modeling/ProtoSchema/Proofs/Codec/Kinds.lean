import ProtoSchema.Proofs.Codec.Storing
import ProtoSchema.Proofs.Codec.Shape
import ProtoSchema.Proofs.Codec.Version

/-!
# What can be encoded

Nothing checks what a getter returns before it is written, so the writer is the one to notice a
value of another shape than its field's. It does where it writes a value. The ways out before that
are the ones to look at. An absent member is let through where the field is optional, which is as it
should be, and an empty list is still a list. But a value that counts as the default of its field is
left out whatever its own kind is: the test compares it with the declared default across the two
widths of a number, and without a declared default it asks for a zero of any kind.

These are all the values that slip through. `Element.Mistakes` lists them.
-/

set_option autoImplicit false

namespace ProtoSchema

open Wire

/-! ## Shapes and mistakes

The test for defaults is the only way past the check of a value's kind, so the values that it lets
pass are listed: zeros of another kind where nothing is declared, and numbers of the other width
where a default is. All of them count as the default, and so they are left out like it. -/

/-- A value has the shape that a field declares. Only an optional field may be absent. -/
def Plan.Shaped (p : Plan) (v : Value) : Prop :=
  (v = .absent ∧ p.field.cardinality = .optional) ∨ p.Holds v

/-- A value of another shape than the element's that counts as the default, where one is declared or
not. -/
inductive Element.Mistakes (e : Element) : Option DefaultValue → Value → Prop
  | zero {s : Scalar} (h : ¬e.Holds s.zero) : Mistakes e none s.zero
  | list : Mistakes e none (.list [])
  | map : Mistakes e none (.map [])
  | narrowInt {s : Scalar} {n : Int32} (he : e = .scalar s) (hs : s.kind = .i64) :
    Mistakes e (some (.int n.toInt64)) (.i32 n)
  | wideInt {s : Scalar} {n : Int64} (he : e = .scalar s) (hs : s.kind = .i32) :
    Mistakes e (some (.int n)) (.i64 n)
  | narrowUInt {s : Scalar} {n : UInt32} (he : e = .scalar s) (hs : s.kind = .u64) :
    Mistakes e (some (.uint n.toUInt64)) (.u32 n)
  | wideUInt {s : Scalar} {n : UInt64} (he : e = .scalar s) (hs : s.kind = .u32) :
    Mistakes e (some (.uint n)) (.u64 n)
  | narrowFloat {s : Scalar} {x : Binary32} {d : Binary64} (he : e = .scalar s)
    (hs : s.kind = .f64) (h : x.numericallyEqual d.toBinary32 = true) :
    Mistakes e (some (.float d)) (.f32 x)
  | wideFloat {s : Scalar} {x d : Binary64} (he : e = .scalar s) (hs : s.kind = .f32)
    (h : x.numericallyEqual d = true) : Mistakes e (some (.float d)) (.f64 x)

/-- A value of another shape is left out of a field because it counts as the field's default. -/
def Plan.Mistakes (p : Plan) (v : Value) : Prop :=
  MessageMarshaller.isImplicit p = true ∧ p.element.Mistakes p.field.default v

section

variable {e : Element} {p : Plan} {v : Value}

theorem Element.Holds.instances_eq (h : e.Holds v) : v.instances = v.elementInstances := by
  cases v with
  | list vs => exact absurd rfl (h.isSingle.2.1 vs)
  | map es => exact absurd rfl (h.isSingle.2.2 es)
  | _ => rfl

theorem Element.Mistakes.not_holds {default : Option DefaultValue} (h : e.Mistakes default v) :
    ¬e.Holds v := by
  intro hv
  cases h with
  | zero h => exact h hv
  | list => exact hv.isSingle.2.1 [] rfl
  | map => exact hv.isSingle.2.2 [] rfl
  | narrowInt he hs | wideInt he hs | narrowUInt he hs | wideUInt he hs | narrowFloat he hs
  | wideFloat he hs =>
    rw [he] at hv
    have hkind := Option.some.inj hv
    rw [hs] at hkind
    cases hkind

theorem Element.Mistakes.isAbsent {default : Option DefaultValue} (h : e.Mistakes default v) :
    v.isAbsent = false := by
  cases h with
  | @zero s => cases s <;> rfl
  | _ => rfl

theorem Value.zero_of_isDefault (h : isDefault v none = true) :
    v = .absent ∨ v = .list [] ∨ v = .map [] ∨ ∃ s : Scalar, v = s.zero := by
  cases hkind : v.kind? with
  | some k =>
    obtain ⟨s, rfl⟩ := Scalar.exists_of_kind k
    have hzero : v.isZero = true := by
      cases v <;> first | exact h | cases h
    exact .inr (.inr (.inr ⟨s, Scalar.eq_zero_of_kind hkind hzero⟩))
  | none =>
    cases v with
    | absent => exact .inl rfl
    | list vs => exact .inr (.inl (congrArg Value.list (List.isEmpty_iff.1 h)))
    | map es => exact .inr (.inr (.inl (congrArg Value.map (List.isEmpty_iff.1 h))))
    | enum n | message i => cases h
    | _ => cases hkind

/-- The kinds of the scalar types that may declare a default of the form. -/
def DefaultValue.kinds : DefaultValue → List ScalarKind
  | bool _ => [.bool]
  | int _ => [.i32, .i64]
  | uint _ => [.u32, .u64]
  | float _ => [.f32, .f64]
  | string _ => [.string]
  | bytes _ => [.bytes]
  | enum .. => []

theorem Element.kind_of_defaultValue? {d : DefaultValue} {w : Value}
    (h : e.defaultValue? d = some w) :
    (∃ s, e = .scalar s ∧ s.kind ∈ d.kinds) ∨ ∃ target isOpen name n, e = .enum target isOpen ∧
      d = .enum name n := by
  cases e with
  | scalar s =>
    refine .inl ⟨s, rfl, ?_⟩
    cases s <;> cases d <;> cases h <;> simp [DefaultValue.kinds, Scalar.kind]
  | enum target isOpen =>
    cases d <;> cases h
    exact .inr ⟨_, _, _, _, rfl, rfl⟩
  | message target => cases d <;> cases h

/-- With a declared default, what counts as it has the element's shape, or is the number in its
other width. -/
theorem Element.mistakes_of_isDefault {d : DefaultValue} {w : Value}
    (hd : e.defaultValue? d = some w) (h : isDefault v (some d) = true) (hholds : ¬e.Holds v) :
    e.Mistakes (some d) v := by
  rcases kind_of_defaultValue? hd with ⟨s, rfl, hkinds⟩ | ⟨target, isOpen, name, n, rfl, rfl⟩
  · have hother : v.kind? ≠ some s.kind := hholds
    cases d with
    | bool | string | bytes =>
      cases v <;> first | cases h | simp_all [DefaultValue.kinds, Value.kind?]
    | enum => cases hkinds
    | int d =>
      have hs : s.kind = .i32 ∨ s.kind = .i64 := by simpa [DefaultValue.kinds] using hkinds
      cases v with
      | i32 n =>
        obtain rfl := eq_of_beq h
        exact .narrowInt rfl (hs.resolve_left fun hs ↦ hother (congrArg some hs.symm))
      | i64 n =>
        obtain rfl := eq_of_beq h
        exact .wideInt rfl (hs.resolve_right fun hs ↦ hother (congrArg some hs.symm))
      | _ => cases h
    | uint d =>
      have hs : s.kind = .u32 ∨ s.kind = .u64 := by simpa [DefaultValue.kinds] using hkinds
      cases v with
      | u32 n =>
        obtain rfl := eq_of_beq h
        exact .narrowUInt rfl (hs.resolve_left fun hs ↦ hother (congrArg some hs.symm))
      | u64 n =>
        obtain rfl := eq_of_beq h
        exact .wideUInt rfl (hs.resolve_right fun hs ↦ hother (congrArg some hs.symm))
      | _ => cases h
    | float d =>
      have hs : s.kind = .f32 ∨ s.kind = .f64 := by simpa [DefaultValue.kinds] using hkinds
      cases v with
      | f32 x => exact .narrowFloat rfl (hs.resolve_left fun hs ↦ hother (congrArg some hs.symm)) h
      | f64 x => exact .wideFloat rfl (hs.resolve_right fun hs ↦ hother (congrArg some hs.symm)) h
      | _ => cases h
  · cases v <;> first | cases h | exact absurd ⟨_, rfl⟩ hholds

theorem Element.Mistakes.isDefault {default : Option DefaultValue} (h : e.Mistakes default v) :
    ProtoSchema.isDefault v default = true := by
  cases h with
  | @zero s => cases s <;> rfl
  | list | map => rfl
  | narrowInt | wideInt | narrowUInt | wideUInt => exact beq_self_eq_true _
  | narrowFloat _ _ h | wideFloat _ _ h => exact h

theorem Plan.Mistakes.writeField {m : MessageMarshaller} {reg : Registry} {write : NestedWriter}
    (h : p.Mistakes v) : m.writeField reg write p v = .ok [] := by
  have hc := (Plan.isImplicit_eq_true.1 h.1).2
  simp [MessageMarshaller.writeField, hc, h.1, h.2.isAbsent, h.2.isDefault]

theorem Value.instances_of_isDefault {default : Option DefaultValue}
    (h : isDefault v default = true) : v.instances = [] := by
  cases v with
  | message i => cases default with
    | none => cases h
    | some d => cases d <;> cases h
  | list vs => cases default with
    | none => rw [List.isEmpty_iff.1 h, instances, List.flatMap_nil]
    | some d => cases d <;> cases h
  | map es => cases default with
    | none => rw [List.isEmpty_iff.1 h, instances, List.flatMap_nil]
    | some d => cases d <;> cases h
  | _ => rfl

/-- What counts as the default of a field has the field's shape, or is mistaken. -/
theorem Plan.mistakes_of_isDefault (hp : p.WellFormed)
    (himplicit : MessageMarshaller.isImplicit p = true) (hv : v.isAbsent = false)
    (h : isDefault v p.field.default = true) (hholds : ¬p.element.Holds v) : p.Mistakes v := by
  refine ⟨himplicit, ?_⟩
  cases hd : p.field.default with
  | none =>
    rw [hd] at h
    rcases Value.zero_of_isDefault h with rfl | rfl | rfl | ⟨s, rfl⟩
    · cases hv
    · exact .list
    · exact .map
    · exact .zero hholds
  | some d =>
    rw [hd] at h
    obtain ⟨w, hw⟩ := hp.default d hd
    exact Element.mistakes_of_isDefault hw h hholds

theorem Plan.Mistakes.not_shaped (h : p.Mistakes v) : ¬p.Shaped v := by
  have hc := (Plan.isImplicit_eq_true.1 h.1).2
  rintro (⟨rfl, -⟩ | hholds)
  · cases h.2.isAbsent
  · rw [Plan.Holds, hc] at hholds
    exact h.2.not_holds hholds

end

/-! ## What is written

Wherever a value is written, its shape is looked at, so a value that was written has the shape of
its element, and instances in it were written by the registry. What is said of elements passes to
records, to entries and to fields, one writer after the other. -/

/-- An instance is written by the marshaller of its own type. -/
def Registry.Writes (reg : Registry) (i : Instance) : Prop :=
  ∃ m out, reg.messageMarshaller? i.type = some m ∧ reg.write m i = .ok out

/-- Whatever the writer of nested instances writes, the registry writes. -/
def NestedWriter.Within (write : NestedWriter) (reg : Registry) : Prop :=
  ∀ m i out, write m i = .ok out → reg.write m i = .ok out

theorem Registry.within_writeBelow (reg : Registry) (i : Instance) :
    (reg.writeBelow i).Within reg := by
  intro m j out h
  unfold writeBelow at h
  split at h
  · exact h
  · cases h

/-- A marshaller writes instances of its own type only. -/
theorem Registry.type_of_write {reg : Registry} {m : MessageMarshaller} {i : Instance} {out : Bytes}
    (h : reg.write m i = .ok out) : i.type = m.type := by
  rw [write_eq, MessageMarshaller.encodeWith] at h
  split at h
  · assumption
  · cases h

theorem exists_of_writeAll {α : Type} {f : α → Except EncodeError Bytes} {l : List α} {b : Bytes}
    (h : MessageMarshaller.writeAll f l = .ok b) : ∀ a ∈ l, ∃ c, f a = .ok c := by
  induction l generalizing b with
  | nil => simp
  | cons a rest ih =>
    obtain ⟨c, hc, h⟩ := bind_eq_ok.1 h
    obtain ⟨cs, hcs, -⟩ := bind_eq_ok.1 h
    exact List.forall_mem_cons.2 ⟨⟨c, hc⟩, ih hcs⟩

section

variable {reg : Registry} {write : NestedWriter} {m : MessageMarshaller} {p : Plan} {v : Value}
  {b : Bytes}

theorem kind_of_writeScalar {s : Scalar} (h : m.writeScalar p s v = .ok b) :
    v.kind? = some s.kind := by
  unfold MessageMarshaller.writeScalar at h
  split at h
  · next payload hpayload => exact Scalar.exists_toPayload?_iff.1 ⟨payload, hpayload⟩
  · cases h

variable (hreg : reg.Closed) (hwrite : write.Within reg)
include hreg hwrite

theorem holds_of_writeElement (h : m.writeElement reg write p v = .ok b) :
    p.element.Holds v ∧ ∀ i ∈ v.elementInstances, reg.Writes i := by
  cases he : p.element with
  | scalar s =>
    simp only [MessageMarshaller.writeElement, he] at h
    have hkind := kind_of_writeScalar h
    refine ⟨hkind, ?_⟩
    cases v <;> first | cases hkind | simp [Value.elementInstances]
  | enum target isOpen =>
    cases v with
    | enum n => exact ⟨⟨n, rfl⟩, by simp [Value.elementInstances]⟩
    | _ => simp [MessageMarshaller.writeElement, he] at h
  | message target =>
    cases v with
    | message i =>
      simp only [MessageMarshaller.writeElement, he] at h
      split at h
      · next inner hinner =>
        obtain ⟨frame, hframe, -⟩ := map_eq_ok.1 h
        have hwritten := hwrite inner i frame hframe
        have htype : i.type = target :=
          (Registry.type_of_write hwritten).trans (hreg.type_eq hinner)
        refine ⟨⟨i, rfl, htype⟩, List.forall_mem_singleton.2 ⟨inner, frame, ?_, hwritten⟩⟩
        rw [htype]
        exact hinner
      · cases h
    | _ => simp [MessageMarshaller.writeElement, he] at h

theorem holds_of_writeTagged {number : Nat} (h : m.writeTagged reg write p number v = .ok b) :
    p.element.Holds v ∧ ∀ i ∈ v.elementInstances, reg.Writes i := by
  obtain ⟨c, hc, -⟩ := map_eq_ok.1 h
  exact holds_of_writeElement hreg hwrite hc

theorem holds_of_writeEntry {key : Scalar} {e : Value × Value}
    (h : m.writeEntry reg write p key e.1 e.2 = .ok b) :
    e.1.kind? = some key.kind ∧ p.element.Holds e.2 ∧
      ∀ i ∈ e.2.elementInstances, reg.Writes i := by
  obtain ⟨_, hkey, h⟩ := bind_eq_ok.1 h
  obtain ⟨_, hvalue, -⟩ := bind_eq_ok.1 h
  exact ⟨kind_of_writeScalar hkey, holds_of_writeTagged hreg hwrite hvalue⟩

theorem holds_of_single (hc : p.field.cardinality = .required ∨ p.field.cardinality = .optional)
    (h : m.writeTagged reg write p p.field.number v = .ok b) :
    p.Holds v ∧ ∀ i ∈ v.instances, reg.Writes i := by
  obtain ⟨hholds, hnested⟩ := holds_of_writeTagged hreg hwrite h
  refine ⟨p.holds_of_element hc hholds, ?_⟩
  rwa [hholds.instances_eq]

theorem holds_of_repeated (hc : p.field.cardinality = .repeated)
    (h : m.writeField reg write p v = .ok b) : p.Holds v ∧ ∀ i ∈ v.instances, reg.Writes i := by
  simp only [MessageMarshaller.writeField, hc] at h
  split at h
  · next vs =>
    have hall : ∀ a ∈ vs, p.element.Holds a ∧ ∀ i ∈ a.elementInstances, reg.Writes i := by
      intro a ha
      rw [if_neg (by simpa using List.ne_nil_of_mem ha)] at h
      split at h
      · obtain ⟨run, hrun, -⟩ := map_eq_ok.1 h
        obtain ⟨c, hc⟩ := exists_of_writeAll hrun a ha
        exact holds_of_writeElement hreg hwrite hc
      · obtain ⟨c, hc⟩ := exists_of_writeAll h a ha
        exact holds_of_writeTagged hreg hwrite hc
    refine ⟨(p.holds_list_iff hc).2 ⟨vs, rfl, fun a ha ↦ (hall a ha).1⟩, fun i hi ↦ ?_⟩
    obtain ⟨a, ha, hi⟩ := List.mem_flatMap.1 hi
    exact (hall a ha).2 i hi
  · cases h

theorem holds_of_map (hc : p.field.cardinality = .map)
    (h : m.writeField reg write p v = .ok b) : p.Holds v ∧ ∀ i ∈ v.instances, reg.Writes i := by
  simp only [MessageMarshaller.writeField, hc] at h
  split at h
  · next es key hkey =>
    have hall : ∀ e ∈ es, e.1.kind? = some key.kind ∧ p.element.Holds e.2 ∧
        ∀ i ∈ e.2.elementInstances, reg.Writes i := by
      intro e he
      obtain ⟨c, hc⟩ := exists_of_writeAll h e he
      exact holds_of_writeEntry hreg hwrite hc
    refine ⟨(p.holds_map_iff hc).2 ⟨es, rfl, fun e he ↦ ⟨?_, (hall e he).2.1⟩⟩, fun i hi ↦ ?_⟩
    · rw [hkey]
      exact (hall e he).1
    · obtain ⟨e, he, hi⟩ := List.mem_flatMap.1 hi
      exact (hall e he).2.2 i hi
  · cases h

/-- **Fields are written or mistaken.** What is written for a field without an error is a value of
the field's shape, or one that is mistaken for its default. -/
theorem shaped_of_writeField (hp : p.WellFormed) (h : m.writeField reg write p v = .ok b) :
    (p.Shaped v ∨ p.Mistakes v) ∧ ∀ i ∈ v.instances, reg.Writes i := by
  cases hc : p.field.cardinality with
  | repeated => exact (holds_of_repeated hreg hwrite hc h).imp_left fun h ↦ .inl (.inr h)
  | map => exact (holds_of_map hreg hwrite hc h).imp_left fun h ↦ .inl (.inr h)
  | required =>
    have himplicit : MessageMarshaller.isImplicit p = false := by
      simp [MessageMarshaller.isImplicit, hc]
    by_cases habsent : v.isAbsent = true
    · simp [MessageMarshaller.writeField, hc, habsent] at h
    · simp only [MessageMarshaller.writeField, hc, habsent, himplicit] at h
      exact (holds_of_single hreg hwrite (.inl hc) h).imp_left fun h ↦ .inl (.inr h)
  | optional =>
    by_cases habsent : v.isAbsent = true
    · obtain rfl : v = .absent := by cases v <;> first | rfl | cases habsent
      exact ⟨.inl (.inl ⟨rfl, hc⟩), by simp [Value.instances, Value.elementInstances]⟩
    · rw [Bool.not_eq_true] at habsent
      by_cases hleft : (MessageMarshaller.isImplicit p && isDefault v p.field.default) = true
      · obtain ⟨himplicit, hdefault⟩ := Bool.and_eq_true_iff.1 hleft
        refine ⟨?_, by simp [Value.instances_of_isDefault hdefault]⟩
        by_cases hholds : p.element.Holds v
        · exact .inl (.inr (p.holds_of_element (.inr hc) hholds))
        · exact .inr (Plan.mistakes_of_isDefault hp himplicit habsent hdefault hholds)
      · simp only [MessageMarshaller.writeField, hc, habsent, hleft] at h
        exact (holds_of_single hreg hwrite (.inr hc) h).imp_left fun h ↦ .inl (.inr h)

end

/-- Every member of an instance that is written was read, and its value is of the field's shape or
mistaken for the default. -/
theorem shaped_of_write {reg : Registry} (hreg : reg.Closed) {m : MessageMarshaller}
    (hm : m.WellFormed) {i : Instance} {out : Bytes} (h : reg.write m i = .ok out) :
    ∀ p ∈ m.plans, ∃ v, m.layout.get? i p.path = some v ∧ (p.Shaped v ∨ p.Mistakes v) ∧
      ∀ j ∈ v.instances, reg.Writes j := by
  intro p hp
  rw [Registry.write_eq, MessageMarshaller.encodeWith, ite_ok_eq_ok] at h
  obtain ⟨bytes, hbytes, -⟩ := bind_eq_ok.1 h.2
  obtain ⟨c, hc⟩ := exists_of_writeAll hbytes p hp
  unfold MessageMarshaller.writePlan at hc
  split at hc
  · next v hv =>
    exact ⟨v, hv, shaped_of_writeField hreg (reg.within_writeBelow i) (hm.plans p hp) hc⟩
  · cases hc

/-- **Encoding refuses values of other shapes, but for those that it mistakes for defaults.** Let an
instance be encoded by a registered type of a compiled registry. If that succeeds, every member was
read, its value is of the shape that the field declares exactly unless the value is mistaken for the
field's default, and every instance in it is one that is written as well. An instance a member of
which cannot be read, or holds a value that is neither of its field's shape nor mistaken, is
refused. A mistaken value is left out like the default. -/
theorem Registry.Compiled.encodes_shaped_iff {reg : Registry} (hreg : reg.Compiled) {t : TypeId}
    {m : MessageMarshaller} (hm : reg.messageMarshaller? t = some m) (i : Instance) :
    (∀ out, reg.write m i = .ok out → ∀ p ∈ m.plans, ∃ v, m.layout.get? i p.path = some v ∧
      (p.Shaped v ↔ ¬p.Mistakes v) ∧ ∀ j ∈ v.instances, reg.Writes j) ∧
    ((∃ p ∈ m.plans, ∀ v, m.layout.get? i p.path = some v → ¬p.Shaped v ∧ ¬p.Mistakes v) →
      ∃ e, reg.write m i = .error e) ∧
    ∀ p ∈ m.plans, ∀ v, p.Mistakes v → m.writeField reg reg.write p v = .ok [] := by
  have hwritten := fun out (h : reg.write m i = .ok out) ↦
    shaped_of_write hreg.closed (hreg.closed.wellFormed t m hm) h
  refine ⟨?_, ?_, fun p _ v h ↦ h.writeField⟩
  · intro out h p hp
    obtain ⟨v, hv, hshaped, hnested⟩ := hwritten out h p hp
    exact ⟨v, hv, ⟨fun h h' ↦ h'.not_shaped h, hshaped.resolve_right⟩, hnested⟩
  · rintro ⟨p, hp, hother⟩
    cases h : reg.write m i with
    | error e => exact ⟨e, rfl⟩
    | ok out =>
      obtain ⟨v, hv, hshaped, -⟩ := hwritten out h p hp
      exact absurd hshaped (not_or.2 (hother v hv))

/-! ## A text in place of a number

A tally counts. Its getter may return a text all the same, since nothing ties a getter to the
declared type, and the empty one is taken for zero. -/

namespace Tally

def type : TypeId := ⟨"tally::Tally"⟩

/-- A message with a count that is left out where it is zero. -/
def environment : Environment :=
  [.storing type
    [({ name := "count", kind := .field (.scalar .int32), getter := ·, number := some 1 })]]

def registry : Registry :=
  CompilationUnit.registry { fileName := "tally.proto", requested := [.of type] } environment

theorem compiled_registry : registry.Compiled := CompilationUnit.compiled_registry _ _

def countPlan : Plan where
  field := ⟨1, "count", .varint, .optional, .scalar .int32, none, none, false, false, none, none⟩
  element := .scalar .int32
  path := [0]

/-- A record that holds a value in place of the count, whatever it is. -/
def holding (v : Value) : Instance := .record type [some v] [] .empty

theorem exists_marshaller : ∃ m, registry.messageMarshaller? type = some m ∧ m.type = type ∧
    m.plans = [countPlan] ∧ m.layout = .storing type ["count"] := by
  refine CompilationUnit.exists_marshaller _ (by decide +kernel) (.head _) (by decide +kernel) ?_
  rintro message ⟨⟩
  cbv

theorem get?_holding {m : MessageMarshaller} (hlayout : m.layout = .storing type ["count"])
    (v : Value) : m.layout.get? (holding v) countPlan.path = some v := by
  rw [hlayout]
  exact Layout.get?_storing (by decide)

theorem not_shaped_text (text : String) : ¬countPlan.Shaped (.string text) := by
  rintro (⟨h, -⟩ | h) <;> cases h

end Tally

/-- A record that holds a number is encoded, and one that holds a text is refused. -/
theorem Tally.encodes_shaped_iff_count : ∃ m, registry.messageMarshaller? type = some m ∧
    registry.write m (holding (.i32 5)) = .ok [0x08, 0x05] ∧
    (∀ p ∈ m.plans, ∃ v, m.layout.get? (holding (.i32 5)) p.path = some v ∧
      (p.Shaped v ↔ ¬p.Mistakes v) ∧ ∀ j ∈ v.instances, registry.Writes j) ∧
    ∃ e, registry.write m (holding (.string "five")) = .error e := by
  obtain ⟨m, hm, htype, hplans, hlayout⟩ := exists_marshaller
  have hencode : (registry.encode (holding (.i32 5))).toOption = some [0x08, 0x05] := by
    decide +kernel
  have hwrite := toOption_eq_some.1 hencode
  rw [Registry.encode, show (holding (.i32 5)).type = type from rfl, hm] at hwrite
  refine ⟨m, hm, hwrite, (compiled_registry.encodes_shaped_iff hm _).1 _ hwrite,
    (compiled_registry.encodes_shaped_iff hm _).2.1 ⟨countPlan, ?_, fun v hv ↦ ?_⟩⟩
  · rw [hplans]
    exact List.mem_singleton_self _
  · rw [get?_holding hlayout] at hv
    cases hv
    exact ⟨not_shaped_text "five", fun h ↦ absurd h.2.isDefault (by decide +kernel)⟩

/-- A record that holds the empty text in place of the count is encoded as if it held nothing. -/
theorem Tally.not_shaped : registry.Compiled ∧ ∃ m, registry.messageMarshaller? type = some m ∧
    registry.write m (holding (.string "")) = .ok [] ∧ countPlan ∈ m.plans ∧
    m.layout.get? (holding (.string "")) countPlan.path = some (.string "") ∧
    ¬countPlan.Shaped (.string "") := by
  obtain ⟨m, hm, htype, hplans, hlayout⟩ := exists_marshaller
  have hencode : (registry.encode (holding (.string ""))).toOption = some [] := by
    decide +kernel
  have hwrite := toOption_eq_some.1 hencode
  rw [Registry.encode, show (holding (.string "")).type = type from rfl, hm] at hwrite
  refine ⟨compiled_registry, m, hm, hwrite, ?_, get?_holding hlayout _, not_shaped_text ""⟩
  rw [hplans]
  exact List.mem_singleton_self _

end ProtoSchema
