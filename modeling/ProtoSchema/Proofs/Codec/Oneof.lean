import Mathlib.Data.List.Induction
import ProtoSchema.Proofs.Codec.Change
import ProtoSchema.Proofs.Codec.Storing

/-!
# Who wins a oneof

The slots of a oneof's members follow the last accepted record of any of them: that record's member
holds its value, and the other slots are empty. This is an invariant of the records read so far,
kept by each record, whatever it belongs to.

What a factory is handed is another matter, because an empty slot is filled with the declared
default of its field. So the last record wins alone exactly if the members that lose declare no
default.
-/

set_option autoImplicit false

namespace ProtoSchema

open Wire

namespace MessageMarshaller

/-- The oneof that the plan at a position belongs to. -/
def oneofAt? (m : MessageMarshaller) (k : Nat) : Option String :=
  m.plans[k]?.bind (·.field.oneof)

/-- The last record that sets a member of a oneof: the position of its plan, and its value. -/
def lastOf? (m : MessageMarshaller) (g : String) (effects : List Effect) : Option (Nat × Value) :=
  effects.reverse.findSome? fun e ↦
    match e.change with
    | some (k, .set v) => if m.oneofAt? k = some g then some (k, v) else none
    | _ => none

/-- The value that the plan at a position wins in a oneof: that of the last record, if the record is
its own. -/
def wins? (m : MessageMarshaller) (g : String) (effects : List Effect) (k : Nat) : Option Value :=
  (m.lastOf? g effects).bind fun (j, v) ↦ if j = k then some v else none

/-- The last record of a oneof wins: its member is handed its value, and the other members are
handed nothing. -/
def LastWins (m : MessageMarshaller) (g : String) (effects : List Effect)
    (hand : List Nat → Option Value) : Prop :=
  ∀ k p, m.plans[k]? = some p → p.field.oneof = some g → hand p.path = m.wins? g effects k

/-- Changes of a member of a oneof set it. -/
def SetsOneofs (m : MessageMarshaller) (e : Effect) : Prop :=
  ∀ k c, e.change = some (k, c) → m.oneofAt? k ≠ none → ∃ v, c = .set v

/-! ## One record

A record sets a member of the oneof and wins, or it does neither. What it does to the slot of each
member follows from that alone. -/

variable {m : MessageMarshaller} {g : String} {k : Nat}

theorem lastOf?_append_singleton (es : List Effect) (e : Effect) :
    m.lastOf? g (es ++ [e]) =
      (match e.change with
        | some (j, .set v) => if m.oneofAt? j = some g then some (j, v) else none
        | _ => none).or (m.lastOf? g es) := by
  rw [lastOf?, List.reverse_append, List.reverse_singleton, List.singleton_append,
    List.findSome?_cons]
  split <;> simp_all [lastOf?]

theorem wins?_of_other {es : List Effect} {e : Effect}
    (h : ∀ j v, e.change = some (j, .set v) → m.oneofAt? j ≠ some g) :
    m.wins? g (es ++ [e]) k = m.wins? g es k := by
  rw [wins?, lastOf?_append_singleton]
  split
  · next j v he => rw [if_neg (h j v he), Option.none_or, wins?]
  · rw [Option.none_or, wins?]

theorem wins?_of_set {es : List Effect} {e : Effect} {j : Nat} {v : Value}
    (he : e.change = some (j, .set v)) (hj : m.oneofAt? j = some g) :
    m.wins? g (es ++ [e]) k = if j = k then some v else none := by
  rw [wins?, lastOf?_append_singleton, he]
  simp only [hj, if_pos, Option.some_or, Option.bind_some]

theorem slotAfter_wins? {es : List Effect} {e : Effect} (hk : m.oneofAt? k = some g)
    (he : m.SetsOneofs e) :
    Draft.slotAfter m k (m.wins? g es k) e = m.wins? g (es ++ [e]) k := by
  cases hc : e.change with
  | none =>
    rw [Draft.slotAfter_of_none hc, wins?_of_other fun j v hv ↦ by rw [hc] at hv; cases hv]
  | some change =>
    obtain ⟨j, c⟩ := change
    by_cases hjk : j = k
    · subst hjk
      obtain ⟨v, rfl⟩ := he j c hc (by rw [hk]; exact Option.some_ne_none g)
      rw [Draft.slotAfter_of_eq hc, wins?_of_set hc hk, if_pos rfl]
      rfl
    · by_cases hj : ∃ v, c = .set v ∧ m.oneofAt? j = some g
      · -- Another member is set, and this one is unset.
        obtain ⟨v, rfl, hj⟩ := hj
        have hx : Draft.exclude m j k = true := by
          obtain ⟨p, hp, hpg⟩ := Option.bind_eq_some_iff.1 hj
          obtain ⟨q, hq, hqg⟩ := Option.bind_eq_some_iff.1 hk
          exact Draft.exclude_eq_true.2 ⟨p, q, g, hp, hq, hpg, hqg⟩
        rw [wins?_of_set hc hj, if_neg hjk, Draft.slotAfter, hc]
        simp only [if_neg hjk, if_pos hx]
      · rw [wins?_of_other fun i v hv hi ↦ hj ⟨v, by rw [hc] at hv; cases hv; exact ⟨rfl, hi⟩⟩]
        refine (Draft.slotAfter_of_ne hc hjk).resolve_right ?_
        rintro ⟨-, hx, v, hv⟩
        refine hj ⟨v, hv, ?_⟩
        obtain ⟨p, q, g', hp, hq, hpg, hqg⟩ := Draft.exclude_eq_true.1 hx
        rw [oneofAt?, hq, Option.bind_some, hqg] at hk
        rw [oneofAt?, hp, Option.bind_some, hpg, hk]

/-- **The slots of a oneof follow its last record.** -/
theorem slot_eq_wins? (hk : m.oneofAt? k = some g) {effects : List Effect}
    (h : ∀ e ∈ effects, m.SetsOneofs e) : m.slot effects k = m.wins? g effects k := by
  induction effects using List.reverseRecOn with
  | nil => rfl
  | append_singleton es e ih =>
    rw [slot_append_singleton, ih fun e' he' ↦ h e' (List.mem_append_left _ he')]
    exact slotAfter_wins? hk (h e (List.mem_append_right _ List.mem_cons_self))

/-! ## Whole messages

Members of oneofs are single fields, so a record that changes one sets it. The slots are filled
after the last record, and it is then that the declared defaults of the losing members come in. -/

variable {reg : Registry} {nested : NestedReader} {input : Bytes}

theorem setsOneofs_of_readRecord (hm : m.WellFormed) {rest : Bytes} {e : Effect}
    (h : (m.readRecord reg nested input).result = .ok (e, rest)) : m.SetsOneofs e := by
  intro k c hc hk
  obtain ⟨p, hp, hbrings⟩ := brings_of_readRecord h hc
  rw [oneofAt?, hp, Option.bind_some] at hk
  obtain ⟨g, hg⟩ := Option.ne_none_iff_exists'.1 hk
  have hcard := ((hm.plans p (List.mem_of_getElem? hp)).oneof g hg).1
  cases hbrings with
  | set _ _ => exact ⟨_, rfl⟩
  | append h _ | insert h _ _ | insertZero h _ _ =>
    rw [hcard] at h
    cases h

theorem Decodes.hand_eq (hm : m.WellFormed) {records : List (Bytes × Effect)}
    {hand : List Nat → Option Value} {i : Instance}
    (h : m.Decodes reg nested input records hand i) {p : Plan} (hp : m.plans[k]? = some p)
    (hg : p.field.oneof = some g) :
    hand p.path = (m.wins? g (records.map (·.2)) k).or p.defaultValue? := by
  have hsets : ∀ e ∈ records.map (·.2), m.SetsOneofs e := by
    intro e he
    obtain ⟨r, hr, rfl⟩ := List.mem_map.1 he
    obtain ⟨rest, hstep⟩ := h.reads.step_of_mem hr
    exact setsOneofs_of_readRecord hm hstep
  have hfill := fill_of_handing hm h.hands hp
  rw [slot_eq_wins? (by rw [oneofAt?, hp, Option.bind_some, hg]) hsets] at hfill
  cases hw : m.wins? g (records.map (·.2)) k with
  | some v =>
    rw [hw, fill] at hfill
    exact (Except.ok.inj hfill).symm
  | none =>
    rw [hw, fill_none m ((hm.plans p (List.mem_of_getElem? hp)).oneof g hg).1] at hfill
    exact (Except.ok.inj hfill).symm

theorem Decodes.lastWins_iff (hm : m.WellFormed) {records : List (Bytes × Effect)}
    {hand : List Nat → Option Value} {i : Instance}
    (h : m.Decodes reg nested input records hand i) :
    m.LastWins g (records.map (·.2)) hand ↔
      ∀ k p, m.plans[k]? = some p → p.field.oneof = some g →
        m.wins? g (records.map (·.2)) k = none → p.field.default = none := by
  constructor
  · intro hlast k p hp hg hw
    have hhand := hlast k p hp hg
    rw [h.hand_eq hm hp hg, hw, Option.none_or] at hhand
    exact (hm.plans p (List.mem_of_getElem? hp)).default_eq_none hhand
  · intro hnone k p hp hg
    rw [h.hand_eq hm hp hg]
    cases hw : m.wins? g (records.map (·.2)) k with
    | some v => rfl
    | none => rw [Plan.defaultValue?, hnone k p hp hg hw, Option.none_or, Option.bind_none]

end MessageMarshaller

/-- **Who wins a oneof.** For every message type that is accepted and every input that is decoded,
a member of a oneof is handed the value of the oneof's last accepted record if that is its own
record, and its declared default otherwise. So the last record wins alone exactly if no other member
of the oneof declares a default. -/
theorem oneof_handing_of_accepted {env : Environment} {resolve : Resolver} {info : TypeInfo}
    {message : MessageInfo} {name : String} {built : BuiltMessage} {m : MessageMarshaller}
    (hbuild : buildMessage env resolve info message name = .ok built)
    (hcompile : MessageMarshaller.compile env info built = .ok m) {reg : Registry}
    {nested : NestedReader} {input : Bytes} {i : Instance}
    (hdecode : (m.decodeWith reg nested input).result = .ok i) :
    ∃ records hand, m.Decodes reg nested input records hand i ∧ ∀ g,
      (∀ k p, m.plans[k]? = some p → p.field.oneof = some g →
        hand p.path = (m.wins? g (records.map (·.2)) k).or p.defaultValue?) ∧
      (m.LastWins g (records.map (·.2)) hand ↔
        ∀ k p, m.plans[k]? = some p → p.field.oneof = some g →
          m.wins? g (records.map (·.2)) k = none → p.field.default = none) := by
  have hm := (MessageMarshaller.compile_sound (buildMessage_sound hbuild) hcompile).2.1
  obtain ⟨records, hand, h⟩ := MessageMarshaller.decodeWith_eq_ok.1 hdecode
  exact ⟨records, hand, h, fun g ↦ ⟨fun k p hp hg ↦ h.hand_eq hm hp hg, h.lastWins_iff hm⟩⟩

/-! ## A choice with a default

The first member of the oneof declares a default, and the second one does not. -/

namespace Choice

def type : TypeId := ⟨"menu::Choice"⟩

/-- The members of a oneof, of which one declares a default. -/
def message : MessageInfo :=
  .storing type
    [({ name := "fixed", kind := .field (.optional (.scalar .int32)), getter := ·
        number := some 1, default := some (.int 5), oneof := some "dish" }),
      ({ name := "free", kind := .field (.optional (.scalar .int32)), getter := ·
         number := some 2, oneof := some "dish" })]

def info : TypeInfo := { type, path := type.name, kind := .message message }

def fixedPlan : Plan where
  field :=
    ⟨1, "fixed", .varint, .optional, .scalar .int32, none, some (.int 5), true, false, some "dish",
      none⟩
  element := .scalar .int32
  path := [0]

def freePlan : Plan where
  field :=
    ⟨2, "free", .varint, .optional, .scalar .int32, none, none, true, false, some "dish", none⟩
  element := .scalar .int32
  path := [1]

theorem exists_marshaller (input : Bytes) (h : input ∈ [[], [0x10, 0x07]]) :
    ∃ built m i, buildMessage [info] (fun _ ↦ none) info message "Choice" = .ok built ∧
      MessageMarshaller.compile [info] info built = .ok m ∧ m.plans = [fixedPlan, freePlan] ∧
        (m.decodeWith .empty none input).result = .ok i := by
  have hall : ∀ bytes ∈ [[], [0x10, 0x07]],
      ((buildMessage [info] (fun _ ↦ none) info message "Choice").toOption.bind fun built ↦
        (MessageMarshaller.compile [info] info built).toOption.map fun m ↦
          (m.plans, (m.decodeWith .empty none bytes).result.toOption.isSome))
            = some ([fixedPlan, freePlan], true) := by
    decide +kernel
  obtain ⟨built, hbuild, hall⟩ := Option.bind_eq_some_iff.1 (hall input h)
  obtain ⟨m, hcompile, hall⟩ := Option.map_eq_some_iff.1 hall
  obtain ⟨hplans, hdecode⟩ := Prod.mk.inj hall
  obtain ⟨i, hi⟩ := isSome_toOption_iff.1 hdecode
  exact ⟨built, m, i, toOption_eq_some.1 hbuild, toOption_eq_some.1 hcompile, hplans, hi⟩

end Choice

/-- The second member wins where a record sets it, and the first is handed its default. -/
theorem Choice.oneof_handing_free : ∃ built m i,
    buildMessage [info] (fun _ ↦ none) info message "Choice" = .ok built ∧
      MessageMarshaller.compile [info] info built = .ok m ∧
      (m.decodeWith .empty none [0x10, 0x07]).result = .ok i ∧
      ∃ records hand, m.Decodes .empty none [0x10, 0x07] records hand i ∧ ∀ g,
        (∀ k p, m.plans[k]? = some p → p.field.oneof = some g →
          hand p.path = (m.wins? g (records.map (·.2)) k).or p.defaultValue?) ∧
        (m.LastWins g (records.map (·.2)) hand ↔
          ∀ k p, m.plans[k]? = some p → p.field.oneof = some g →
            m.wins? g (records.map (·.2)) k = none → p.field.default = none) := by
  obtain ⟨built, m, i, hbuild, hcompile, -, hdecode⟩ :=
    exists_marshaller [0x10, 0x07] (.tail _ (.head _))
  exact ⟨built, m, i, hbuild, hcompile, hdecode,
    oneof_handing_of_accepted hbuild hcompile hdecode⟩

/-- On the empty input nothing wins the oneof, but the first member is handed its default. -/
theorem Choice.not_lastWins : ∃ built m i records hand,
    buildMessage [info] (fun _ ↦ none) info message "Choice" = .ok built ∧
      MessageMarshaller.compile [info] info built = .ok m ∧
      (m.decodeWith .empty none []).result = .ok i ∧
      m.Decodes .empty none [] records hand i ∧ ¬m.LastWins "dish" (records.map (·.2)) hand := by
  obtain ⟨built, m, i, hbuild, hcompile, hplans, hdecode⟩ := exists_marshaller [] (.head _)
  have hm := (MessageMarshaller.compile_sound (buildMessage_sound hbuild) hcompile).2.1
  obtain ⟨records, hand, h⟩ := MessageMarshaller.decodeWith_eq_ok.1 hdecode
  refine ⟨built, m, i, records, hand, hbuild, hcompile, hdecode, h, fun hlast ↦ ?_⟩
  have hnil : records = [] := by
    cases h.reads with
    | nil => rfl
    | cons _ hlt _ => exact absurd hlt (Nat.not_lt_zero _)
    | last hne _ _ => exact absurd rfl hne
  have hdefault := (h.lastWins_iff hm).1 hlast 0 fixedPlan (by rw [hplans]; rfl) rfl
    (by rw [hnil]; rfl)
  cases hdefault

end ProtoSchema
