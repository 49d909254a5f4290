import Mathlib.Data.List.Induction
import ProtoSchema.Proofs.Codec.Draft
import ProtoSchema.Proofs.Codec.Message

/-!
# What decoding hands to factories

Decoding succeeds in exactly one way: every record is read where the one before it ended, the
effects fill the slots of the fields, and the layout builds the instance of what the slots hold.
`MessageMarshaller.Decodes` names these witnesses, so that laws about what a factory is handed can
speak of the records of the input and of the value at each path.
-/

set_option autoImplicit false

namespace ProtoSchema

open Wire

/-! ## Traces of readings

Repeated reading either fails or finds a list of pieces. A trace is that list, with the input in
front of which each piece stood, so that what is known of one reading is known of every piece. -/

/-- The pieces that repeated reading finds, each with the input in front of which it stood. -/
inductive ReadTrace {ε α : Type} (step : Bytes → Logged ε (α × Bytes)) :
    Bytes → List (Bytes × α) → Prop
  | nil : ReadTrace step [] []
  | cons {input rest : Bytes} {a : α} {trace : List (Bytes × α)}
      (head : (step input).result = .ok (a, rest)) (hlt : rest.length < input.length)
      (tail : ReadTrace step rest trace) : ReadTrace step input ((input, a) :: trace)
  | last {input rest : Bytes} {a : α} (hne : input ≠ [])
      (head : (step input).result = .ok (a, rest)) (hlt : ¬rest.length < input.length) :
      ReadTrace step input [(input, a)]

section

variable {ε α : Type} {step : Bytes → Logged ε (α × Bytes)}

theorem readAll_eq_ok {input : Bytes} {as : List α} :
    (readAll step input).result = .ok as ↔ ∃ trace, ReadTrace step input trace ∧
      trace.map (·.2) = as := by
  constructor
  · intro h
    induction hn : input.length using Nat.strongRecOn generalizing input as with
    | ind n ih =>
      by_cases hne : input = []
      · rw [hne, readAll_nil] at h
        cases h
        exact ⟨[], hne ▸ .nil, rfl⟩
      · rw [readAll, if_neg (by simpa using hne)] at h
        obtain ⟨⟨b, rest⟩, hb, h⟩ := Logged.bind_eq_ok.1 h
        by_cases hlt : rest.length < input.length
        · simp only [if_pos hlt] at h
          obtain ⟨bs, hbs, h⟩ := Logged.bind_eq_ok.1 h
          cases h
          obtain ⟨trace, htrace, rfl⟩ := ih rest.length (hn ▸ hlt) hbs rfl
          exact ⟨(input, b) :: trace, .cons hb hlt htrace, rfl⟩
        · simp only [if_neg hlt, Logged.result_pure] at h
          cases h
          exact ⟨[(input, b)], .last hne hb hlt, rfl⟩
  · rintro ⟨trace, htrace, rfl⟩
    induction htrace with
    | nil => exact readAll_nil step
    | cons head hlt _ ih => rw [readAll_step hlt head, ih, map_ok, List.map_cons]
    | @last input rest a hne head hlt =>
      rw [readAll, if_neg (by simpa using hne), Logged.result_bind, head, ok_bind]
      simp only [if_neg hlt, Logged.result_pure, List.map_cons, List.map_nil]

theorem ReadTrace.step_of_mem {input : Bytes} {trace : List (Bytes × α)}
    (h : ReadTrace step input trace) {r : Bytes × α} (hr : r ∈ trace) :
    ∃ rest, (step r.1).result = .ok (r.2, rest) := by
  induction h with
  | nil => cases hr
  | cons head _ _ ih =>
    rcases List.mem_cons.1 hr with rfl | hr
    · exact ⟨_, head⟩
    · exact ih hr
  | last _ head _ =>
    rw [List.mem_singleton.1 hr]
    exact ⟨_, head⟩

end

/-- The reader of messages nested in a message that itself has the given levels below it. -/
def Registry.nestedAt (reg : Registry) : (levels : Nat) → NestedReader
  | 0 => none
  | levels + 1 => some (reg.decodeAt levels)

theorem Registry.decodeAt_eq (reg : Registry) (levels : Nat) (m : MessageMarshaller)
    (input : Bytes) :
    reg.decodeAt levels m input = m.decodeWith reg (reg.nestedAt levels) input := by
  cases levels <;> rfl

/-! ## What is handed over

A slot is followed through the effects at its own position. In the end it is filled, and all that
the factories see of the input is what the slots were filled to. -/

namespace MessageMarshaller

/-- What effects leave in the slot of the plan at a position. -/
def slot (m : MessageMarshaller) (effects : List Effect) (k : Nat) : Option Value :=
  effects.foldl (Draft.slotAfter m k) none

theorem slot_append_singleton (m : MessageMarshaller) (es : List Effect) (e : Effect) (k : Nat) :
    m.slot (es ++ [e]) k = Draft.slotAfter m k (m.slot es k) e := by
  rw [slot, List.foldl_append, List.foldl_cons, List.foldl_nil, slot]

/-- What every change of a field keeps of its slot holds of the slot in the end. -/
theorem slot_induction {m : MessageMarshaller} {k : Nat} {effects : List Effect} {P : Value → Prop}
    (h : ∀ e ∈ effects, ∀ c, e.change = some (k, c) → ∀ slot : Option Value,
      (∀ w, slot = some w → P w) → ∀ w, c.on slot = some w → P w) :
    ∀ w, m.slot effects k = some w → P w := by
  induction effects using List.reverseRecOn with
  | nil =>
    intro w hw
    cases hw
  | append_singleton es e ih =>
    have hes := ih fun e' he' ↦ h e' (List.mem_append_left _ he')
    intro w hw
    rw [slot_append_singleton] at hw
    cases hc : e.change with
    | none =>
      rw [Draft.slotAfter_of_none hc] at hw
      exact hes w hw
    | some change =>
      obtain ⟨j, c⟩ := change
      by_cases hjk : j = k
      · subst hjk
        rw [Draft.slotAfter_of_eq hc] at hw
        exact h e (List.mem_append_right _ List.mem_cons_self) c hc _ hes w hw
      · have hs : Draft.slotAfter m k (m.slot es k) e = m.slot es k ∨
            Draft.slotAfter m k (m.slot es k) e = none :=
          (Draft.slotAfter_of_ne hc hjk).imp_right And.left
        rcases hs with hs | hs
        · exact hes w (hs.symm.trans hw)
        · cases hs.symm.trans hw

/-- The values that the factories are handed for effects, by path. -/
def handing (m : MessageMarshaller) (effects : List Effect) :
    Except DecodeError (List Nat → Option Value) :=
  ((m.plans.zip (effects.foldl (Draft.apply m) (.empty m)).slots).mapM fun e ↦
    m.fill e.1 e.2).map fun values ↦ valueAt (m.plans.zip values)

theorem handing_congr_fill {m : MessageMarshaller} {es es' : List Effect}
    (h : ∀ k p, m.plans[k]? = some p → m.fill p (m.slot es' k) = m.fill p (m.slot es k)) :
    m.handing es' = m.handing es := by
  have hfilled : ((m.plans.zip (es'.foldl (Draft.apply m) (.empty m)).slots).map
      fun e ↦ m.fill e.1 e.2) = (m.plans.zip (es.foldl (Draft.apply m) (.empty m)).slots).map
      fun e ↦ m.fill e.1 e.2 := by
    refine List.ext_getElem? fun k ↦ ?_
    rw [Draft.slots_foldl, Draft.slots_foldl, List.getElem?_map, List.getElem?_map,
      List.zip, List.getElem?_zipWith, List.getElem?_zipWith, List.getElem?_mapIdx,
      List.getElem?_mapIdx]
    cases hp : m.plans[k]? with
    | none => rfl
    | some p => exact congrArg some (h k p hp)
  have hmapM := congrArg (List.mapM id) hfilled
  rw [List.mapM_map, List.mapM_map] at hmapM
  exact congrArg (Except.map fun values ↦ valueAt (m.plans.zip values)) hmapM

/-! ## Decoding, step by step

That decoding succeeds is then the same as that there are records, values and an instance that fit
together. Where the records are known, what decoding comes to is known up to the factories. -/

/-- An input is decoded as an instance: its records are read, `hand` is what they leave for the
factories, and the layout builds the instance of it. -/
structure Decodes (m : MessageMarshaller) (reg : Registry) (nested : NestedReader) (input : Bytes)
    (records : List (Bytes × Effect)) (hand : List Nat → Option Value) (i : Instance) : Prop where
  reads : ReadTrace (m.readRecord reg nested) input records
  hands : m.handing (records.map (·.2)) = .ok hand
  builds : m.layout.assemble hand [] ⟨(records.map (·.2)).flatMap (·.retained)⟩ = .ok i

variable {m : MessageMarshaller} {reg : Registry} {nested : NestedReader} {input : Bytes}

theorem result_decodeWith_of_readAll {effects : List Effect}
    (h : (readAll (m.readRecord reg nested) input).result = .ok effects) :
    (m.decodeWith reg nested input).result = m.handing effects >>= fun hand ↦
      (m.layout.assemble hand [] ⟨effects.flatMap (·.retained)⟩).mapError .factory := by
  have hunknown : (effects.foldl (Draft.apply m) (.empty m)).unknown
      = ⟨effects.flatMap (·.retained)⟩ :=
    congrArg UnknownFields.mk (Draft.unknown_foldl (.empty m) effects)
  rw [Draft.result_decodeWith, h, ok_bind, Draft.result_finish, hunknown, handing]
  cases (m.plans.zip (effects.foldl (Draft.apply m) (.empty m)).slots).mapM
    fun e ↦ m.fill e.1 e.2 <;> rfl

theorem result_decodeWith_of_handing {records : List (Bytes × Effect)}
    {hand : List Nat → Option Value} (hreads : ReadTrace (m.readRecord reg nested) input records)
    (hhand : m.handing (records.map (·.2)) = .ok hand) :
    (m.decodeWith reg nested input).result = (m.layout.assemble hand []
      ⟨(records.map (·.2)).flatMap (·.retained)⟩).mapError .factory := by
  rw [result_decodeWith_of_readAll (readAll_eq_ok.2 ⟨records, hreads, rfl⟩), hhand, ok_bind]

/-- Where the records are read but values are not handed over, decoding ends with the error. -/
theorem result_decodeWith_of_handing_eq_error {records : List (Bytes × Effect)} {e : DecodeError}
    (hreads : ReadTrace (m.readRecord reg nested) input records)
    (hhand : m.handing (records.map (·.2)) = .error e) :
    (m.decodeWith reg nested input).result = .error e := by
  rw [result_decodeWith_of_readAll (readAll_eq_ok.2 ⟨records, hreads, rfl⟩), hhand, error_bind]

theorem decodeWith_eq_ok {i : Instance} :
    (m.decodeWith reg nested input).result = .ok i ↔
      ∃ records hand, m.Decodes reg nested input records hand i := by
  constructor
  · intro h
    have hread := h
    rw [Draft.result_decodeWith] at hread
    obtain ⟨effects, hread, hfinish⟩ := bind_eq_ok.1 hread
    rw [Draft.result_finish] at hfinish
    obtain ⟨values, hvalues, -⟩ := bind_eq_ok.1 hfinish
    obtain ⟨records, htrace, rfl⟩ := readAll_eq_ok.1 hread
    have hhand : m.handing (records.map (·.2)) = .ok (valueAt (m.plans.zip values)) := by
      rw [handing, hvalues, map_ok]
    rw [result_decodeWith_of_handing htrace hhand] at h
    exact ⟨records, _, htrace, hhand, mapError_eq_ok.1 h⟩
  · rintro ⟨records, hand, htrace, hhand, hbuild⟩
    rw [result_decodeWith_of_handing htrace hhand, hbuild, mapError_ok]

theorem fill_of_handing (hm : m.WellFormed) {effects : List Effect} {hand : List Nat → Option Value}
    (h : m.handing effects = .ok hand) {k : Nat} {p : Plan} (hp : m.plans[k]? = some p) :
    m.fill p (m.slot effects k) = .ok (hand p.path) := by
  obtain ⟨values, hvalues, rfl⟩ := map_eq_ok.1 h
  have hall := mapM_eq_ok.1 hvalues
  rw [Draft.slots_foldl] at hall
  have hk := (List.getElem?_eq_some_iff.1 hp).1
  have hlen := hall.length_eq
  rw [List.length_zip, List.length_mapIdx, Nat.min_self] at hlen
  have hfill := (List.forall₂_iff_get.1 hall).2 k (by simpa using hk) (hlen ▸ hk)
  simp only [List.get_eq_getElem, List.getElem_zip, List.getElem_mapIdx] at hfill
  have hpk : m.plans[k] = p := (List.getElem?_eq_some_iff.1 hp).2
  rw [hpk] at hfill
  rw [slot, hfill]
  congr 1
  exact (valueAt_zip hm.paths hlen hp (List.getElem?_eq_getElem (hlen ▸ hk))).symm

end MessageMarshaller

end ProtoSchema
