import ProtoSchema.Proofs.Codec.Stream
import ProtoSchema.Proofs.Codec.Inversion

/-!
# Two ways of reading

A message may be read twice, with another registry, with another reader of what nests in it, or for
a type that has the same fields elsewhere. If the results of the two readings are related wherever
they ask the registry or read a nested message, they are related all the way through, as long as the
relation passes from steps to sequences of steps. What the relation is, is left open here: that the
second reading keeps what the first one made, or that the first one only ran out of levels.
-/

set_option autoImplicit false

namespace ProtoSchema

open Wire

/-- A relation between the results of two readings, whatever it is that they read. -/
abbrev ResultRel := (α : Type) → Except DecodeError α → Except DecodeError α → Prop

/-- A relation that holds of what is read alike and passes from steps to sequences of steps. -/
structure Compositional (Rel : ResultRel) : Prop where
  ok : ∀ {α : Type} (a : α), Rel α (.ok a) (.ok a)
  wire : ∀ {α : Type} (e : WireError), Rel α (.error (.wire e)) (.error (.wire e))
  bind : ∀ {α β : Type} {x x' : Except DecodeError α} {f f' : α → Except DecodeError β},
    Rel α x x' → (∀ a, x = .ok a → Rel β (f a) (f' a)) → Rel β (x >>= f) (x' >>= f')

/-! ## What is asked

Of the registry a reader wants to know only which marshaller a nested message has and what becomes
of the number of an enum. Everything else it takes from the plans, so plans that are alike read
alike. -/

/-- Two registries give related answers about the elements of a plan. -/
structure Plan.Asks (p : Plan) (Rel : ResultRel) (reg reg' : Registry) : Prop where
  marshaller : ∀ target, p.element = .message target →
    Rel _ (reg.elementMarshaller p target) (reg'.elementMarshaller p target)
  judge : ∀ target isOpen, p.element = .enum target isOpen → ∀ n,
    Rel _ (reg.judgeNumber p target isOpen n) (reg'.judgeNumber p target isOpen n)

/-- Two message types have the same fields in the same order, wherever they keep them. -/
def MessageMarshaller.Alike (m m' : MessageMarshaller) : Prop :=
  List.Forall₂ (fun p p' ↦ ∃ path, p' = { p with path }) m.plans m'.plans

namespace MessageMarshaller.Alike

variable {m m' : MessageMarshaller}

theorem refl (m : MessageMarshaller) : m.Alike m := List.forall₂_same.2 fun p _ ↦ ⟨p.path, rfl⟩

theorem plan?_eq (h : m.Alike m') (number : Nat) :
    m.plan? number = none ∧ m'.plan? number = none ∨ ∃ k p path,
      m.plan? number = some (k, p) ∧ m'.plan? number = some (k, { p with path }) := by
  have hnumbers : m'.plans.map (·.field.number) = m.plans.map (·.field.number) := by
    rw [eq_comm, ← List.forall₂_eq_eq_eq, List.forall₂_map_left_iff, List.forall₂_map_right_iff]
    refine h.imp fun p p' hp ↦ ?_
    obtain ⟨path, rfl⟩ := hp
    rfl
  have hindex : m'.planIndex? number = m.planIndex? number := by
    have := congrArg (List.findIdx? (· == number)) hnumbers
    rwa [List.findIdx?_map, List.findIdx?_map] at this
  unfold plan?
  rw [hindex]
  cases m.planIndex? number with
  | none => exact .inl ⟨rfl, rfl⟩
  | some k =>
    rw [Option.bind_some, Option.bind_some]
    cases hk : m.plans[k]? with
    | none =>
      have hk' : m'.plans[k]? = none := by
        rw [List.getElem?_eq_none_iff, ← h.length_eq, ← List.getElem?_eq_none_iff]
        exact hk
      rw [hk']
      exact .inl ⟨rfl, rfl⟩
    | some p =>
      obtain ⟨_, hp, path, rfl⟩ := exists_getElem?_of_forall₂ h hk
      rw [hp]
      exact .inr ⟨k, p, path, rfl, rfl⟩

end MessageMarshaller.Alike

/-- Two readers of nested messages give related results. Only where the relation has it that
running out of levels is related to everything may the second one go on alone. -/
structure NestedReader.Related (Rel : ResultRel) (reg : Registry) (nested nested' : NestedReader) :
    Prop where
  opened : nested'.isNone = true → nested.isNone = true
  closed : nested.isNone = true → nested'.isNone = true ∨
    ∀ (α : Type) (x : Except DecodeError α), Rel α (.error (.wire (.recursionLimit nestingLimit))) x
  run : ∀ t m, reg.messageMarshaller? t = some m → ∀ frame,
    Rel _ (nested.run m frame).result (nested'.run m frame).result

namespace Compositional

variable {Rel : ResultRel} (hRel : Compositional Rel)
include hRel

theorem logged_bind {α β : Type} {x x' : Logged DecodeError α} {f f' : α → Logged DecodeError β}
    (hx : Rel α x.result x'.result)
    (hf : ∀ a, x.result = .ok a → Rel β (f a).result (f' a).result) :
    Rel β (x >>= f).result (x' >>= f').result := by
  rw [Logged.result_bind, Logged.result_bind]
  exact hRel.bind hx hf

theorem ofWire {α : Type} (x : Except WireError α) :
    Rel α (ofWire x).result (ProtoSchema.ofWire x).result := by
  rw [result_ofWire]
  cases x with
  | ok a => exact hRel.ok a
  | error e => exact hRel.wire e

theorem readAll {α : Type} {step step' : Bytes → Logged DecodeError (α × Bytes)}
    (h : ∀ input, Rel _ (step input).result (step' input).result) (input : Bytes) :
    Rel _ (readAll step input).result (ProtoSchema.readAll step' input).result := by
  -- Reading goes on only where a step shortened what is left.
  induction hn : input.length using Nat.strongRecOn generalizing input with
  | ind n ih =>
    rw [ProtoSchema.readAll, ProtoSchema.readAll]
    split
    · exact hRel.ok _
    · refine hRel.logged_bind (h input) fun read _ ↦ ?_
      obtain ⟨a, rest⟩ := read
      dsimp only
      split
      · next hlt =>
        exact hRel.logged_bind (ih rest.length (hn ▸ hlt) rest rfl) fun _ _ ↦ hRel.ok _
      · exact hRel.ok _

variable {reg reg' : Registry} {nested nested' : NestedReader} {p : Plan} {path : List Nat}
  (hasks : p.Asks Rel reg reg') (hnested : nested.Related Rel reg nested')
include hasks hnested

theorem readElement (input : Bytes) :
    Rel _ (readElement reg nested p input).result
      (ProtoSchema.readElement reg' nested' { p with path } input).result := by
  unfold ProtoSchema.readElement
  dsimp only
  cases helement : p.element with
  | scalar s => exact hRel.logged_bind (hRel.ofWire _) fun _ _ ↦ hRel.ok _
  | enum target isOpen =>
    refine hRel.logged_bind (hRel.ofWire _) fun ⟨w, rest⟩ _ ↦ ?_
    exact hRel.logged_bind (hasks.judge target isOpen helement _) fun _ _ ↦ hRel.ok _
  | message target =>
    refine hRel.logged_bind (hRel.ofWire _) fun ⟨frame, rest⟩ _ ↦ ?_
    dsimp only
    by_cases hnone : nested.isNone = true
    · rw [if_pos hnone]
      rcases hnested.closed hnone with hnone' | hany
      · rw [if_pos hnone']
        exact hRel.wire _
      · exact hany _ _
    · rw [if_neg hnone, if_neg (mt hnested.opened hnone)]
      refine hRel.logged_bind (hasks.marshaller target helement) fun m hm ↦ ?_
      have hm := Registry.elementMarshaller_eq_ok hm
      exact hRel.logged_bind (hnested.run target m hm frame) fun _ _ ↦ hRel.ok _

theorem zeroElement :
    Rel _ (zeroElement reg nested p).result
      (ProtoSchema.zeroElement reg' nested' { p with path }).result := by
  unfold ProtoSchema.zeroElement
  dsimp only
  cases helement : p.element with
  | scalar s => exact hRel.ok _
  | enum target isOpen => exact hRel.ok _
  | message target =>
    refine hRel.logged_bind (hasks.marshaller target helement) fun m hm ↦ ?_
    have hm := Registry.elementMarshaller_eq_ok hm
    exact hRel.logged_bind (hnested.run target m hm []) fun _ _ ↦ hRel.ok _

theorem readEntryPiece (keyType : Scalar) (input : Bytes) :
    Rel _ (readEntryPiece reg nested p keyType input).result
      (ProtoSchema.readEntryPiece reg' nested' { p with path } keyType input).result := by
  unfold ProtoSchema.readEntryPiece
  refine hRel.logged_bind (hRel.ofWire _) fun ⟨tag, afterTag⟩ _ ↦ ?_
  dsimp only
  split
  · refine hRel.logged_bind (hRel.ofWire _) fun _ _ ↦ ?_
    exact hRel.logged_bind (hRel.ofWire _) fun _ _ ↦ hRel.ok _
  · split
    · refine hRel.logged_bind (hRel.ofWire _) fun _ _ ↦ ?_
      refine hRel.logged_bind (hRel.readElement hasks hnested afterTag) fun ⟨reading, rest⟩ _ ↦ ?_
      cases reading <;> exact hRel.ok _
    · exact hRel.logged_bind (hRel.ofWire _) fun _ _ ↦ hRel.ok _

theorem readEntry (keyType : Scalar) (frame : Bytes) :
    Rel _ (readEntry reg nested p keyType frame).result
      (ProtoSchema.readEntry reg' nested' { p with path } keyType frame).result := by
  unfold ProtoSchema.readEntry
  refine hRel.logged_bind (hRel.readAll (hRel.readEntryPiece hasks hnested keyType) frame)
    fun pieces _ ↦ ?_
  dsimp only
  split
  · exact hRel.ok _
  · split
    · exact hRel.ok _
    · exact hRel.logged_bind (hRel.zeroElement hasks hnested) fun _ _ ↦ hRel.ok _

variable {m m' : MessageMarshaller} {index : Nat} {tag : Tag} {input afterTag : Bytes}

theorem readMapRecord :
    Rel _ (m.readMapRecord reg nested index p tag input afterTag).result
      (m'.readMapRecord reg' nested' index { p with path } tag input afterTag).result := by
  unfold MessageMarshaller.readMapRecord
  refine hRel.logged_bind (hRel.ofWire _) fun _ _ ↦ ?_
  refine hRel.logged_bind (hRel.ofWire _) fun ⟨frame, rest⟩ _ ↦ ?_
  refine hRel.logged_bind (hRel.readEntry hasks hnested _ frame) fun entry _ ↦ ?_
  cases entry <;> exact hRel.ok _

theorem readListRecord :
    Rel _ (MessageMarshaller.readListRecord reg nested index p tag input afterTag).result
      (MessageMarshaller.readListRecord reg' nested' index { p with path } tag input
        afterTag).result := by
  unfold MessageMarshaller.readListRecord
  split
  · refine hRel.logged_bind (hRel.ofWire _) fun ⟨frame, rest⟩ _ ↦ ?_
    exact hRel.logged_bind (hRel.readAll (hRel.readElement hasks hnested) frame) fun _ _ ↦ hRel.ok _
  · refine hRel.logged_bind (hRel.ofWire _) fun _ _ ↦ ?_
    refine hRel.logged_bind (hRel.readElement hasks hnested afterTag) fun ⟨reading, rest⟩ _ ↦ ?_
    cases reading <;> exact hRel.ok _

theorem readSingleRecord :
    Rel _ (m.readSingleRecord reg nested index p tag input afterTag).result
      (m'.readSingleRecord reg' nested' index { p with path } tag input afterTag).result := by
  unfold MessageMarshaller.readSingleRecord
  refine hRel.logged_bind (hRel.ofWire _) fun _ _ ↦ ?_
  refine hRel.logged_bind (hRel.readElement hasks hnested afterTag) fun ⟨reading, rest⟩ _ ↦ ?_
  cases reading <;> exact hRel.ok _

omit hasks

theorem readRecord (halike : m.Alike m') (hplans : ∀ q ∈ m.plans, q.Asks Rel reg reg')
    (input : Bytes) :
    Rel _ (m.readRecord reg nested input).result (m'.readRecord reg' nested' input).result := by
  unfold MessageMarshaller.readRecord
  refine hRel.logged_bind (hRel.ofWire _) fun ⟨tag, afterTag⟩ _ ↦ ?_
  dsimp only
  rcases halike.plan?_eq tag.number with ⟨hplan, hplan'⟩ | ⟨index, q, path, hplan, hplan'⟩
  · rw [hplan, hplan']
    exact hRel.logged_bind (hRel.ofWire _) fun _ _ ↦ hRel.ok _
  · have hq := hplans q (List.mem_of_getElem? (MessageMarshaller.plan?_eq_some hplan).1)
    rw [hplan, hplan']
    dsimp only
    split
    · exact hRel.readMapRecord hq hnested
    · exact hRel.readListRecord hq hnested
    all_goals exact hRel.readSingleRecord hq hnested

/-- **Two ways of reading** a message are related if what they ask of their registries and what they
read of nested messages is. Building the instance asks neither. -/
theorem decodeWith (hplans : ∀ q ∈ m.plans, q.Asks Rel reg reg') (input : Bytes)
    (hfinish : ∀ effects,
      (ProtoSchema.readAll (m.readRecord reg nested) input).result = .ok effects →
      Rel _ (m.finish (effects.foldl (Draft.apply m) (.empty m))).result
        (m.finish (effects.foldl (Draft.apply m) (.empty m))).result) :
    Rel _ (m.decodeWith reg nested input).result (m.decodeWith reg' nested' input).result :=
  hRel.logged_bind (hRel.readAll (hRel.readRecord hnested (.refl m) hplans) input) hfinish

end Compositional

end ProtoSchema
