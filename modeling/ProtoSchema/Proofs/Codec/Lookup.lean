import ProtoSchema.Proofs.Codec.Decoding
import ProtoSchema.Proofs.Codec.Relating
import ProtoSchema.Proofs.Codec.Version
import ProtoSchema.Proofs.Registry.Closed

/-!
# What the codec looks up

All that reading and writing a registered message ask a registry for are the types that plans of
registered messages refer to. A registry that holds more gives the same answers about the types that
are found, so what comes of reading or writing is the same there. The one thing that may change is a
complaint about an unknown type, and there is a reason for one only if a registered plan refers to a
type that is not registered.

`Registry.Keeps` says both of the result of one step. It is a relation between two ways of reading,
so the reader follows from the answers of the registry; for the writer steps are put together by
`Keeps.bind`. Both go by induction on how deeply messages nest.
-/

set_option autoImplicit false

namespace ProtoSchema

open Wire

/-! ## Keeping what comes of a step

Two results are compared: that of a step with a registry, and that of the same step with a larger
one. They are equal, unless the registry lacks a type that one of its plans refers to. Then the
first one may complain, and nothing is said of the second one. -/

/-- A plan of a registered message type. -/
def Registry.HasPlan (reg : Registry) (p : Plan) : Prop :=
  ∃ t m, reg.messageMarshaller? t = some m ∧ p ∈ m.plans

/-- A registered plan refers to a type that is not registered as the plan takes it. -/
def Registry.Lacks (reg : Registry) (p : Plan) : Prop := reg.HasPlan p ∧ ¬p.element.Resolved reg

section

variable {ε α β : Type} {reg : Registry} {unknown : String → ε} {x x' : Except ε α}

/-- What comes of a step with a registry, `x`, comes of it with a larger registry too, `x'`, and is
no complaint about an unknown type, unless the registry lacks what a plan refers to. -/
def Registry.Keeps (reg : Registry) (unknown : String → ε) (x x' : Except ε α) : Prop :=
  (x' = x ∧ ∀ name, x ≠ .error (unknown name)) ∨
    ∃ p, reg.Lacks p ∧ x = .error (unknown p.targetName)

namespace Registry.Keeps

theorem same (h : ∀ name, x ≠ .error (unknown name)) : reg.Keeps unknown x x := .inl ⟨rfl, h⟩

theorem ok (a : α) : reg.Keeps unknown (.ok a) (.ok a) := same fun _ h ↦ by cases h

/-- Steps one after the other. -/
theorem bind {f f' : α → Except ε β} (hx : reg.Keeps unknown x x')
    (hf : ∀ a, x = .ok a → reg.Keeps unknown (f a) (f' a)) :
    reg.Keeps unknown (x >>= f) (x' >>= f') := by
  rcases hx with ⟨rfl, hne⟩ | ⟨p, hp, rfl⟩
  · cases x' with
    | ok a => exact hf a rfl
    | error e => exact same fun name h ↦ hne name (by cases h; rfl)
  · exact .inr ⟨p, hp, rfl⟩

theorem map (hx : reg.Keeps unknown x x') (f : α → β) :
    reg.Keeps unknown (x.map f) (x'.map f) := by
  rcases hx with ⟨rfl, hne⟩ | ⟨p, hp, rfl⟩
  · exact same fun name h ↦ hne name (map_eq_error.1 h)
  · exact .inr ⟨p, hp, rfl⟩

/-- Where a registry lacks nothing there is no complaint. -/
theorem ne_unknown (hx : reg.Keeps unknown x x') (hlacks : ∀ p, ¬reg.Lacks p) (name : String) :
    x ≠ .error (unknown name) := by
  rcases hx with ⟨-, hne⟩ | ⟨p, hp, -⟩
  · exact hne name
  · exact absurd hp (hlacks p)

theorem eq_of_ne (hx : reg.Keeps unknown x x') (hne : ∀ name, x ≠ .error (unknown name)) :
    x' = x := by
  rcases hx with ⟨h, -⟩ | ⟨p, -, h⟩
  · exact h
  · exact absurd h (hne _)

end Registry.Keeps

end

theorem Registry.HasPlan.lacks_message {reg : Registry} {p : Plan} {target : TypeId}
    (hp : reg.HasPlan p) (helement : p.element = .message target)
    (hm : reg.messageMarshaller? target = none) : reg.Lacks p := by
  refine ⟨hp, ?_⟩
  rw [helement]
  rintro ⟨m, hm'⟩
  rw [hm] at hm'
  cases hm'

theorem Registry.Closed.not_lacks {reg : Registry} (h : reg.Closed) (p : Plan) : ¬reg.Lacks p := by
  rintro ⟨⟨t, m, hm, hp⟩, hmissing⟩
  exact hmissing (h.resolved t m hm p hp)

section

variable {reg reg' : Registry} (hextends : reg'.Extends reg)
include hextends

theorem Registry.Extends.messageMarshaller? {t : TypeId} {m : MessageMarshaller}
    (h : reg.messageMarshaller? t = some m) : reg'.messageMarshaller? t = some m := by
  obtain ⟨e, he, hm⟩ := Registry.messageMarshaller?_eq_some.1 h
  exact Registry.messageMarshaller?_eq_some.2 ⟨e, hextends t e he, hm⟩

theorem Registry.Extends.enumMarshaller? {t : TypeId} {m : EnumMarshaller}
    (h : reg.enumMarshaller? t = some m) : reg'.enumMarshaller? t = some m := by
  obtain ⟨e, he, hm⟩ := Registry.enumMarshaller?_eq_some.1 h
  exact Registry.enumMarshaller?_eq_some.2 ⟨e, hextends t e he, hm⟩

end

/-! ## Reading

Readers ask for the marshallers of elements, and for nothing else. Filling slots and building the
instance ask for nothing at all. -/

section

variable {reg reg' : Registry} {p : Plan}

theorem compositional_keeps (reg : Registry) :
    Compositional fun _ x x' ↦ reg.Keeps DecodeError.unknownType x x' where
  ok := .ok
  wire _ := .same fun _ h ↦ by cases h
  bind := Registry.Keeps.bind

theorem asks_keeps (hextends : reg'.Extends reg) (hp : reg.HasPlan p) :
    p.Asks (fun _ x x' ↦ reg.Keeps DecodeError.unknownType x x') reg reg' where
  marshaller target helement := by
    unfold Registry.elementMarshaller
    cases hm : reg.messageMarshaller? target with
    | some m =>
      rw [hextends.messageMarshaller? hm]
      exact .ok m
    | none => exact .inr ⟨p, hp.lacks_message helement hm, rfl⟩
  judge target isOpen helement number := by
    unfold Registry.judgeNumber
    split
    · exact .ok _
    · cases hm : reg.enumMarshaller? target with
      | some m =>
        rw [hextends.enumMarshaller? hm]
        dsimp only
        split <;> exact .ok _
      | none =>
        refine .inr ⟨p, ⟨hp, ?_⟩, rfl⟩
        rw [helement]
        rintro ⟨m, hm'⟩
        rw [hm] at hm'
        cases hm'

end

section

variable {reg reg' : Registry} {nested nested' : NestedReader} {m : MessageMarshaller} {t : TypeId}

/-- Nested messages are kept, down to the same level. -/
abbrev NestedReader.Keeps (reg : Registry) (nested nested' : NestedReader) : Prop :=
  nested.Related (fun _ x x' ↦ reg.Keeps DecodeError.unknownType x x') reg nested'

theorem keeps_finish (d : Draft) :
    reg.Keeps .unknownType (m.finish d).result (m.finish d).result := by
  refine .same fun name h ↦ ?_
  rw [Draft.result_finish, bind_eq_error] at h
  rcases h with h | ⟨values, -, h⟩
  · obtain ⟨⟨plan, slot⟩, -, h⟩ := exists_of_mapM_eq_error h
    unfold MessageMarshaller.fill at h
    split at h
    · cases h
    · split at h <;> cases h
  · cases hbuilt : m.layout.assemble (MessageMarshaller.valueAt (m.plans.zip values)) [] d.unknown
    all_goals
      rw [hbuilt] at h
      cases h

variable (hextends : reg'.Extends reg)
include hextends

theorem keeps_decodeWith (hm : reg.messageMarshaller? t = some m)
    (hnested : NestedReader.Keeps reg nested nested') (input : Bytes) :
    reg.Keeps .unknownType (m.decodeWith reg nested input).result
      (m.decodeWith reg' nested' input).result :=
  (compositional_keeps reg).decodeWith hnested (fun _ hp ↦ asks_keeps hextends ⟨t, m, hm, hp⟩)
    input fun _ _ ↦ keeps_finish _

theorem keeps_nestedAt (levels : Nat) :
    NestedReader.Keeps reg (reg.nestedAt levels) (reg'.nestedAt levels) := by
  induction levels with
  | zero => exact ⟨fun _ ↦ rfl, fun _ ↦ .inl rfl, fun _ _ _ _ ↦ .same fun _ h ↦ by cases h⟩
  | succ levels ih =>
    refine ⟨(nomatch ·), (nomatch ·), fun t m hm frame ↦ ?_⟩
    rw [Registry.nestedAt, Registry.nestedAt, NestedReader.run, NestedReader.run,
      Registry.decodeAt_eq, Registry.decodeAt_eq]
    exact keeps_decodeWith hextends hm ih frame

theorem keeps_readWith (hm : reg.messageMarshaller? t = some m) (r : Reader) :
    reg.Keeps .unknownType (reg.readWith m r).result (reg'.readWith m r).result := by
  rw [Registry.readWith, Registry.readWith, Registry.decodeAt_eq, Registry.decodeAt_eq]
  exact keeps_decodeWith hextends hm (keeps_nestedAt hextends r.levelsLeft) r.unread

/-- **Decoding a registered type** comes to the same with a larger registry. -/
theorem Registry.keeps_decode (hm : reg.messageMarshaller? t = some m) (input : Bytes) :
    reg.Keeps .unknownType (reg.decode t input).result (reg'.decode t input).result := by
  rw [decode, decode, hm, hextends.messageMarshaller? hm]
  refine (compositional_keeps reg).logged_bind (keeps_readWith hextends hm ⟨input, 0⟩) fun i _ ↦ ?_
  split
  · exact .ok i
  · exact .same fun name h ↦ by cases h

/-- **Decoding by a registered name** comes to the same with a larger registry that has the name for
the same entry. -/
theorem Registry.keeps_decodeNamed {name : String} {e : Entry} (he : reg.named? name = some e)
    (he' : reg'.named? name = some e) (hm : e.marshaller = .message m) (input : Bytes) :
    reg.Keeps .unknownType (reg.decodeNamed name input).result
      (reg'.decodeNamed name input).result := by
  rw [decodeNamed, decodeNamed, he, he']
  obtain ⟨t, -, he⟩ := Option.bind_eq_some_iff.1 he
  have hfound := Registry.messageMarshaller?_eq_some.2 ⟨e, he, hm⟩
  rw [Option.bind_some, hm]
  exact keeps_readWith hextends hfound ⟨input, 0⟩

end

/-! ## Writing

Writers are followed step by step, from scalars to messages, with the writer of nested messages as a
parameter. -/

section

variable {reg reg' : Registry} {nested nested' : NestedWriter} {m owner : MessageMarshaller}
  {p : Plan} {t : TypeId}

/-- Nested messages are kept. -/
def NestedWriter.Keeps (reg : Registry) (nested nested' : NestedWriter) : Prop :=
  ∀ t m, reg.messageMarshaller? t = some m → ∀ i,
    reg.Keeps EncodeError.unknownType (nested m i) (nested' m i)

theorem keeps_writeAll {α : Type} {write write' : α → Except EncodeError Bytes}
    {as : List α} (h : ∀ a ∈ as, reg.Keeps .unknownType (write a) (write' a)) :
    reg.Keeps .unknownType (MessageMarshaller.writeAll write as)
      (MessageMarshaller.writeAll write' as) := by
  induction as with
  | nil => exact .ok []
  | cons a rest ih =>
    have hrest := ih fun b hb ↦ h b (List.mem_cons_of_mem a hb)
    exact (h a List.mem_cons_self).bind fun _ _ ↦ hrest.bind fun _ _ ↦ .ok _

theorem keeps_writeScalar (s : Scalar) (v : Value) :
    reg.Keeps .unknownType (owner.writeScalar p s v) (owner.writeScalar p s v) := by
  refine .same fun name h ↦ ?_
  unfold MessageMarshaller.writeScalar at h
  split at h <;> cases h

variable (hextends : reg'.Extends reg) (hp : reg.HasPlan p)
  (hnested : NestedWriter.Keeps reg nested nested')
include hextends hp hnested

theorem keeps_writeElement (v : Value) :
    reg.Keeps .unknownType (owner.writeElement reg nested p v)
      (owner.writeElement reg' nested' p v) := by
  unfold MessageMarshaller.writeElement
  split
  · exact keeps_writeScalar _ _
  · exact .ok _
  · next target i helement =>
    cases hm : reg.messageMarshaller? target with
    | some inner =>
      rw [hextends.messageMarshaller? hm]
      exact (hnested target inner hm i).map _
    | none => exact .inr ⟨p, hp.lacks_message helement hm, rfl⟩
  · exact .same fun name h ↦ by cases h

theorem keeps_writeTagged (number : Nat) (v : Value) :
    reg.Keeps .unknownType (owner.writeTagged reg nested p number v)
      (owner.writeTagged reg' nested' p number v) :=
  (keeps_writeElement hextends hp hnested v).map _

theorem keeps_writeEntry (keyType : Scalar) (key value : Value) :
    reg.Keeps .unknownType (owner.writeEntry reg nested p keyType key value)
      (owner.writeEntry reg' nested' p keyType key value) :=
  (keeps_writeScalar keyType key).bind fun _ _ ↦
    (keeps_writeTagged hextends hp hnested 2 value).bind fun _ _ ↦ .ok _

theorem keeps_writeField (v : Value) :
    reg.Keeps .unknownType (owner.writeField reg nested p v)
      (owner.writeField reg' nested' p v) := by
  unfold MessageMarshaller.writeField
  cases p.field.cardinality with
  | required | optional =>
    dsimp only
    split
    · split
      · exact .same fun name h ↦ by cases h
      · exact .ok []
    · split
      · exact .ok []
      · exact keeps_writeTagged hextends hp hnested _ v
  | repeated =>
    dsimp only
    split
    · split
      · exact .ok []
      · split
        · exact (keeps_writeAll fun v _ ↦ keeps_writeElement hextends hp hnested v).map _
        · exact keeps_writeAll fun v _ ↦ keeps_writeTagged hextends hp hnested _ v
    · exact .same fun name h ↦ by cases h
  | map =>
    dsimp only
    split
    · exact keeps_writeAll fun (key, value) _ ↦ keeps_writeEntry hextends hp hnested _ key value
    · exact .same fun name h ↦ by cases h

end

section

variable {reg reg' : Registry} (hextends : reg'.Extends reg)
include hextends

theorem keeps_encodeWith {nested nested' : NestedWriter} {t : TypeId} {m : MessageMarshaller}
    (hm : reg.messageMarshaller? t = some m) (hnested : NestedWriter.Keeps reg nested nested')
    (i : Instance) :
    reg.Keeps .unknownType (m.encodeWith reg nested i) (m.encodeWith reg' nested' i) := by
  unfold MessageMarshaller.encodeWith
  split
  · refine (keeps_writeAll fun p hp ↦ ?_).bind fun _ _ ↦ .ok _
    unfold MessageMarshaller.writePlan
    split
    · exact keeps_writeField hextends ⟨t, m, hm, hp⟩ hnested _
    · exact .same fun name h ↦ by cases h
  · exact .same fun name h ↦ by cases h

theorem keeps_write {t : TypeId} {m : MessageMarshaller} (hm : reg.messageMarshaller? t = some m)
    (i : Instance) : reg.Keeps .unknownType (reg.write m i) (reg'.write m i) := by
  -- Writing is bounded by the instance, not by levels as reading is.
  induction hn : i.depth using Nat.strongRecOn generalizing t m i with
  | ind n ih =>
    rw [Registry.write_eq, Registry.write_eq]
    refine keeps_encodeWith hextends hm (fun t inner hinner j ↦ ?_) i
    unfold Registry.writeBelow
    split
    · next hlt => exact ih j.depth (hn ▸ hlt) hinner j rfl
    · exact .same fun name h ↦ by cases h

/-- **Encoding an instance of a registered type** comes to the same with a larger registry. -/
theorem Registry.keeps_encode {i : Instance} {m : MessageMarshaller}
    (hm : reg.messageMarshaller? i.type = some m) :
    reg.Keeps .unknownType (reg.encode i) (reg'.encode i) := by
  rw [encode, encode, hm, hextends.messageMarshaller? hm]
  exact keeps_write hextends hm i

end

end ProtoSchema
