import ProtoSchema.Proofs.Codec.Alike
import ProtoSchema.Proofs.Codec.TypeSound
import ProtoSchema.Proofs.Types.Spreading

/-!
# Factories that accept what they are handed

A factory may refuse what it is handed, and a message is refused with it. Where no factory does
that, decoding comes to an end in one of two ways only. Either every factory is reached, that of the
message and those of the supertypes that it inlines, or the input is to blame: it cannot be read, or
it lacks a required field.

Factories are asked from the inside out, so that a factory is reached at all depends on those below
it. The induction on the layout goes along with the path to the layout, by which it is known what
each factory is handed.
-/

set_option autoImplicit false

namespace ProtoSchema

open Wire

/-- The input is to blame: it cannot be read, or it lacks a required field. -/
def DecodeError.BlamesInput : DecodeError → Prop
  | wire _ | required _ _ => True
  | factory _ | unknownType _ | typeMismatch _ => False

/-- Every factory that decoding reaches accepts what it is handed, that of the message itself and
those of the supertypes that it inlines. -/
def MessageMarshaller.Accepts (m : MessageMarshaller) (reg : Registry) (nested : NestedReader) :
    Prop :=
  ∀ input records path l values, m.Reaches reg nested input records path l values →
    ∃ i, l.factory values = .ok i

/-- The factories of all registered messages accept what they are handed, however deeply the
messages nest. -/
def Registry.Accepting (reg : Registry) : Prop :=
  ∀ t m, reg.messageMarshaller? t = some m → ∀ levels, m.Accepts reg (reg.nestedAt levels)

/-! ## Reaching factories

The slots of a layout are handed to its factory once all of them are filled, and the slot of a
supertype is filled by the factory below. That they are filled is shown part by part, where the
parts behind the first one begin one position later. -/

namespace Layout

/-- What stands at the first position is found at the rest of a path. -/
theorem Contains.cons {l parent l' : Layout} {k : Nat} {getter : Getter} {path : List Nat}
    (hk : l.parts[k]? = some (.flatten getter parent)) (h : parent.Contains path l') :
    l.Contains (k :: path) l' := by
  induction h with
  | self => exact .parent .self hk
  | parent _ hk' ih => exact .parent ih hk'

theorem exists_contains_of_hasField {l : Layout} {path : List Nat} (h : l.hasField path = true) :
    ∃ base k l' getter, path = base ++ [k] ∧ l.Contains base l' ∧
      l'.parts[k]? = some (.field getter) := by
  induction path generalizing l with
  | nil => cases h
  | cons k rest ih =>
    obtain ⟨part, hk, hfield⟩ := hasField_cons.1 h
    cases part with
    | field getter =>
      obtain rfl := List.isEmpty_iff.1 hfield
      exact ⟨[], k, l, getter, rfl, .self, hk⟩
    | flatten getter parent =>
      obtain ⟨base, j, l', getter', rfl, hl', hj⟩ := ih hfield
      exact ⟨k :: base, j, l', getter', rfl, .cons hk hl', hj⟩

theorem Contains.of_parts {l l' : Layout} {path : List Nat} {P : Layout → Prop}
    (h : l.Contains path l') (hself : P l)
    (hparts : ∀ (l' : Layout) (getter : Getter) (parent : Layout), P l' →
      .flatten getter parent ∈ l'.parts → P parent) : P l' := by
  induction h with
  | self => exact hself
  | parent _ hk ih => exact hparts _ _ _ ih (List.mem_of_getElem? hk)

/-- The factories of the supertypes that a layout inlines accept what they are handed. -/
def ParentsAccept (root : Layout) (hand : List Nat → Option Value) : Prop :=
  ∀ path l slots, root.Contains path l → path ≠ [] →
    assembleParts hand path 0 l.parts = .ok slots →
      ∃ i, l.factory ⟨l.typePath, l.names, slots, .empty⟩ = .ok i

variable {root : Layout} {hand : List Nat → Option Value}

theorem getElem?_of_cons {l : Layout} {part : Part} {rest : List Part} {index : Nat}
    (h : ∀ k : Nat, (part :: rest)[k]? = l.parts[index + k]?) (k : Nat) :
    rest[k]? = l.parts[index + 1 + k]? := by
  rw [Nat.add_right_comm]
  exact h (k + 1)

mutual

theorem exists_slots (haccept : root.ParentsAccept hand) {path : List Nat} (l : Layout)
    (hl : root.Contains path l) : ∃ slots, assembleParts hand path 0 l.parts = .ok slots := by
  match l, hl with
  | mk typePath names factory unknown parts, hl =>
    exact exists_slotsFrom haccept parts hl fun k ↦ by rw [Nat.zero_add, Layout.parts]

theorem exists_slotsFrom (haccept : root.ParentsAccept hand) {path : List Nat} {l : Layout}
    {index : Nat} (parts : List Part) (hl : root.Contains path l)
    (hparts : ∀ k : Nat, parts[k]? = l.parts[index + k]?) :
    ∃ slots, assembleParts hand path index parts = .ok slots := by
  match parts, hparts with
  | [], _ => exact ⟨[], by rw [assembleParts]⟩
  | .field getter :: rest, hparts =>
    obtain ⟨slots, hslots⟩ := exists_slotsFrom haccept rest hl (getElem?_of_cons hparts)
    exact ⟨_, by rw [assembleParts, hslots, ok_bind, pure_eq_ok]⟩
  | .flatten getter parent :: rest, hparts =>
    have hparent : root.Contains (path ++ [index]) parent := .parent hl (hparts 0).symm
    obtain ⟨inner, hinner⟩ := exists_slots haccept parent hparent
    obtain ⟨i, hi⟩ := haccept _ parent inner hparent (by simp) hinner
    obtain ⟨slots, hslots⟩ := exists_slotsFrom haccept rest hl (getElem?_of_cons hparts)
    exact ⟨_, by rw [assembleParts, assemble_eq, hinner, ok_bind, hi, ok_bind, hslots, ok_bind,
      pure_eq_ok]⟩

end

end Layout

namespace MessageMarshaller

variable {m : MessageMarshaller} {reg : Registry} {nested : NestedReader} {input : Bytes}
  {records : List (Bytes × Effect)} {hand : List Nat → Option Value}

/-- **Every factory is reached.** -/
theorem Accepts.exists_reaches (h : m.Accepts reg nested)
    (hreads : ReadTrace (m.readRecord reg nested) input records)
    (hhand : m.handing (records.map (·.2)) = .ok hand) {path : List Nat} {l : Layout}
    (hl : m.layout.Contains path l) :
    ∃ slots, Layout.assembleParts hand path 0 l.parts = .ok slots ∧
      m.Reaches reg nested input records path l ⟨l.typePath, l.names, slots,
        if path = [] then ⟨(records.map (·.2)).flatMap (·.retained)⟩ else .empty⟩ := by
  have hparents : m.layout.ParentsAccept hand := fun path l slots hl hpath hslots ↦
    h input records path l _ ⟨hreads, hl, hand, slots, hhand, hslots, by rw [if_neg hpath]⟩
  obtain ⟨slots, hslots⟩ := Layout.exists_slots hparents l hl
  exact ⟨slots, hslots, hreads, hl, hand, slots, hhand, hslots, rfl⟩

theorem Accepts.exists_decodeWith (h : m.Accepts reg nested)
    (hreads : ReadTrace (m.readRecord reg nested) input records)
    (hhand : m.handing (records.map (·.2)) = .ok hand) :
    ∃ i, (m.decodeWith reg nested input).result = .ok i := by
  obtain ⟨slots, -, hreaches⟩ := h.exists_reaches hreads hhand .self
  obtain ⟨i, hi⟩ := h _ _ _ _ _ hreaches
  exact ⟨i, by rw [hreaches.result_decodeWith, hi, mapError_ok]⟩

end MessageMarshaller

/-! ## Failing

To be to blame for a failure is a property of errors that passes from steps to their sequences, so
the readers of elements and records have it because each of their steps does. -/

/-- Only the input is to blame for what comes of a reading. -/
def BlamesOnlyInput {α : Type} (x _x' : Except DecodeError α) : Prop :=
  ∀ e, x = .error e → e.BlamesInput

theorem compositional_blames : Compositional @BlamesOnlyInput where
  ok _ e h := by cases h
  wire _ e h := by
    cases h
    trivial
  bind hx hf e h := by
    rcases bind_eq_error.1 h with h | ⟨a, ha, h⟩
    · exact hx e h
    · exact hf a ha e h

section

variable {reg : Registry} {nested : NestedReader} {m : MessageMarshaller} {t : TypeId}

theorem asks_blames {p : Plan} (hp : p.element.Resolved reg) : p.Asks @BlamesOnlyInput reg reg where
  marshaller target helement e h := by
    rw [helement] at hp
    obtain ⟨m, hm⟩ := hp
    rw [Registry.elementMarshaller, hm] at h
    cases h
  judge target isOpen helement n e h := by
    rw [helement] at hp
    obtain ⟨e', he'⟩ := hp
    rw [Registry.judgeNumber, he'] at h
    dsimp only at h
    split at h
    · cases h
    · split at h <;> cases h

theorem blames_decodeWith (hres : ∀ p ∈ m.plans, p.element.Resolved reg)
    (hnested : nested.Related @BlamesOnlyInput reg nested) (haccept : m.Accepts reg nested)
    (input : Bytes) :
    BlamesOnlyInput (m.decodeWith reg nested input).result
      (m.decodeWith reg nested input).result := by
  refine compositional_blames.decodeWith hnested (fun p hp ↦ asks_blames (hres p hp)) input
    fun effects heffects e he ↦ ?_
  obtain ⟨records, htrace, rfl⟩ := readAll_eq_ok.1 heffects
  rcases MessageMarshaller.Alike.fills_cases m m (MessageMarshaller.Alike.refl m)
      ((records.map (·.2)).foldl (Draft.apply m) (.empty m)).slots with
    ⟨values, hvalues, -⟩ | ⟨field, hfield, -⟩
  · have hhand : m.handing (records.map (·.2)) = .ok (MessageMarshaller.valueAt
        (m.plans.zip values)) := by
      rw [MessageMarshaller.handing, hvalues, map_ok]
    obtain ⟨i, hi⟩ := haccept.exists_decodeWith htrace hhand
    rw [Draft.result_decodeWith, heffects, ok_bind, he] at hi
    cases hi
  · rw [Draft.result_finish, hfield, error_bind] at he
    cases he
    trivial

theorem blames_nestedAt (hreg : reg.Closed) (haccept : reg.Accepting) (levels : Nat) :
    (reg.nestedAt levels).Related @BlamesOnlyInput reg (reg.nestedAt levels) := by
  refine ⟨id, .inl, ?_⟩
  induction levels with
  | zero =>
    intro t m _ frame e he
    cases he
    trivial
  | succ levels ih =>
    intro t m hm frame
    rw [Registry.nestedAt, NestedReader.run, Registry.decodeAt_eq]
    exact blames_decodeWith (hreg.resolved t m hm) ⟨id, .inl, ih⟩ (haccept t m hm levels) frame

/-- **Only the input is to blame** if a registered message is not decoded, where all references lead
to registered types and all factories accept what they are handed. -/
theorem Registry.Closed.blamesInput (hreg : reg.Closed) (haccept : reg.Accepting)
    (hm : reg.messageMarshaller? t = some m) {levels : Nat} {input : Bytes} {e : DecodeError}
    (he : (reg.decodeAt levels m input).result = .error e) : e.BlamesInput := by
  rw [Registry.decodeAt_eq] at he
  exact blames_decodeWith (hreg.resolved t m hm) (blames_nestedAt hreg haccept levels)
    (haccept t m hm levels) input e he

end

end ProtoSchema
