import ProtoSchema.Proofs.Codec.Levels
import ProtoSchema.Proofs.Codec.RoundTrip

/-!
# How deeply messages may nest

`Registry.nesting` counts the levels of messages in an instance, through single fields, lists and
maps. Flattened supertypes, packed runs and entries of maps open no level of their own. What is
encoded of an instance is decoded if and only if its messages nest no more deeply than the limit.

That nesting within the limit is decoded is the round trip. For the other direction the round trip
is made with a reader that answers for itself wherever the levels ran out. If reading had succeeded
without it, it would have answered nowhere. But what it answers shows in the instance that is built.
-/

set_option autoImplicit false

namespace ProtoSchema

open Wire

/-! ## Counting levels

Only messages directly below an instance count for the next level, and they nest less deeply. So
levels are counted by recursion on the depth of instances. -/

namespace MessageMarshaller

/-- The messages directly below an instance, with the types of their fields. -/
def children (m : MessageMarshaller) (x : Instance) : List (TypeId × Instance) :=
  m.plans.flatMap fun p ↦
    match p.element, m.layout.get? x p.path with
    | .message target, some v => v.instances.map (target, ·)
    | _, _ => []

variable {m : MessageMarshaller} {x i : Instance} {t : TypeId}

theorem mem_children : (t, i) ∈ m.children x ↔ ∃ p ∈ m.plans, p.element = .message t ∧
    ∃ v, m.layout.get? x p.path = some v ∧ i ∈ v.instances := by
  rw [children, List.mem_flatMap]
  constructor
  · rintro ⟨p, hp, h⟩
    split at h
    · next target v helement hv =>
      obtain ⟨j, hj, heq⟩ := List.mem_map.1 h
      cases heq
      exact ⟨p, hp, helement, v, hv, hj⟩
    · cases h
  · rintro ⟨p, hp, helement, v, hv, hi⟩
    refine ⟨p, hp, ?_⟩
    rw [helement, hv]
    exact List.mem_map.2 ⟨i, hi, rfl⟩

theorem depth_lt_of_mem_children {c : TypeId × Instance} (h : c ∈ m.children x) :
    c.2.depth < x.depth := by
  obtain ⟨p, -, -, v, hv, hi⟩ := mem_children.1 h
  exact Nat.lt_of_le_of_lt (Value.depth_le_of_mem_instances hi) (Layout.depth_lt_of_get? hv)

end MessageMarshaller

theorem Registry.Closed.exists_of_mem_children {reg : Registry} (hreg : reg.Closed)
    {t target : TypeId} {m : MessageMarshaller} {x i : Instance}
    (hm : reg.messageMarshaller? t = some m) (hi : (target, i) ∈ m.children x) :
    ∃ inner, reg.messageMarshaller? target = some inner := by
  obtain ⟨p, hp, helement, -⟩ := MessageMarshaller.mem_children.1 hi
  have hres := hreg.resolved t m hm p hp
  rwa [helement] at hres

/-- How many levels of messages nest in an instance. -/
def Registry.nesting (reg : Registry) (m : MessageMarshaller) (x : Instance) : Nat :=
  ((m.children x).attach.map fun c ↦
    (reg.messageMarshaller? c.1.1).elim 0 (fun inner ↦ reg.nesting inner c.1.2) + 1).foldr max 0
termination_by x.depth
decreasing_by exact MessageMarshaller.depth_lt_of_mem_children c.2

section

variable {reg : Registry} {m : MessageMarshaller} {x : Instance} {levels : Nat}

theorem foldr_max_le {l : List Nat} {n : Nat} : l.foldr max 0 ≤ n ↔ ∀ a ∈ l, a ≤ n := by
  induction l with
  | nil => simp
  | cons a rest ih => rw [List.foldr_cons, Nat.max_le, ih, List.forall_mem_cons]

theorem Registry.nesting_le_iff : reg.nesting m x ≤ levels ↔
    ∀ t i, (t, i) ∈ m.children x →
      (reg.messageMarshaller? t).elim 0 (fun inner ↦ reg.nesting inner i) < levels := by
  rw [nesting, foldr_max_le]
  constructor
  · intro h t i hi
    exact h _ (List.mem_map.2 ⟨⟨(t, i), hi⟩, List.mem_attach _ _, rfl⟩)
  · intro h n hn
    obtain ⟨⟨⟨t, i⟩, hi⟩, -, rfl⟩ := List.mem_map.1 hn
    exact h t i hi

theorem Registry.nesting_lt_of_mem_children {t : TypeId} {i : Instance} {inner : MessageMarshaller}
    (h : (t, i) ∈ m.children x) (hinner : reg.messageMarshaller? t = some inner) :
    reg.nesting inner i < reg.nesting m x := by
  have hlt := Registry.nesting_le_iff.1 (Nat.le_refl (reg.nesting m x)) t i h
  rwa [hinner] at hlt

/-! ## Levels that suffice

That an instance is well typed says how many levels may nest in it. It never asks for more than
those that do, since whatever is admitted at one level is admitted again when the levels below it
are counted anew. -/

theorem Registry.WellTyped.exists_admits (h : reg.WellTyped levels m x) :
    ∃ P, m.Admits reg P x ∧ ∀ t i, P t i → ∃ below < levels, ∀ inner,
      reg.messageMarshaller? t = some inner → reg.WellTyped below inner i := by
  cases levels with
  | zero => exact ⟨_, h.1, fun _ _ h ↦ h.elim⟩
  | succ levels => exact ⟨_, h.1, fun _ _ h ↦ ⟨levels, Nat.lt_succ_self levels, h⟩⟩

theorem Registry.WellTyped.of_mem_children (h : reg.WellTyped levels m x)
    {t : TypeId} {i : Instance}
    (hi : (t, i) ∈ m.children x) : ∃ below < levels, ∀ inner,
      reg.messageMarshaller? t = some inner → reg.WellTyped below inner i := by
  obtain ⟨P, hadmits, hP⟩ := h.exists_admits
  obtain ⟨p, hp, helement, v, hv, hi⟩ := MessageMarshaller.mem_children.1 hi
  obtain ⟨v', hv', hfit⟩ := hadmits.fits p hp
  obtain rfl := Option.some.inj (hv.symm.trans hv')
  exact hP t i (hfit.of_mem_instances helement hi)

theorem Registry.WellTyped.nesting_le (h : reg.WellTyped levels m x) :
    reg.nesting m x ≤ levels := by
  induction levels using Nat.strongRecOn generalizing m x with
  | ind levels ih =>
    rw [Registry.nesting_le_iff]
    intro t i hi
    obtain ⟨below, hlt, hbelow⟩ := h.of_mem_children hi
    cases hinner : reg.messageMarshaller? t with
    | none => exact Nat.lt_of_le_of_lt (Nat.zero_le below) hlt
    | some inner => exact Nat.lt_of_le_of_lt (ih below hlt (hbelow inner hinner)) hlt

theorem MessageMarshaller.Admits.mono {P Q : TypeId → Instance → Prop} (h : m.Admits reg P x)
    (hPQ : ∀ t i, (t, i) ∈ m.children x → P t i → Q t i) : m.Admits reg Q x where
  type := h.type
  fits p hp := by
    obtain ⟨v, hv, hfit⟩ := h.fits p hp
    exact ⟨v, hv, hfit.mono fun t i ht hi ↦
      hPQ t i (MessageMarshaller.mem_children.2 ⟨p, hp, ht, v, hv, hi⟩)⟩
  exclusive := h.exclusive
  retained := h.retained

/-- **The levels that nest suffice.** An instance that is well typed with any number of levels is
well typed with as many as nest in it. -/
theorem Registry.WellTyped.of_nesting_le {enough : Nat} (h : reg.WellTyped levels m x)
    (hle : reg.nesting m x ≤ enough) : reg.WellTyped enough m x := by
  induction enough generalizing levels m x with
  | zero =>
    obtain ⟨P, hadmits, -⟩ := h.exists_admits
    refine ⟨hadmits.mono fun t i hi _ ↦ ?_, h.storesBack⟩
    exact absurd (Registry.nesting_le_iff.1 hle t i hi) (Nat.not_lt_zero _)
  | succ enough ih =>
    obtain ⟨P, hadmits, hP⟩ := h.exists_admits
    refine ⟨hadmits.mono fun t i hi h inner hinner ↦ ?_, h.storesBack⟩
    obtain ⟨below, -, hbelow⟩ := hP t i h
    have hlt := Registry.nesting_lt_of_mem_children hi hinner
    exact ih (hbelow inner hinner) (by omega)

end

/-! ## Levels that run out

The answer in the place of a message is an instance that no reader would return. If reading
succeeded without any answer, each message was read, and its bytes with the levels that were left
for it. -/

/-- Answers in the place of another reader where that one ran out of levels. -/
def NestedReader.rescue (nested : NestedReader) (answer : MessageMarshaller → Instance) :
    NestedReader :=
  some fun m frame ↦
    match (nested.run m frame).result with
    | .ok i => pure i
    | .error e =>
      if e = .wire (.recursionLimit nestingLimit) then pure (answer m) else throw e

/-- `j` is what is made of the bytes of `i`, by a reader or by an answer in its place. -/
structure NestedReader.StandsIn (nested : NestedReader) (reg : Registry)
    (answer : MessageMarshaller → Instance) (i j : Instance) : Prop where
  type : j.type = i.type
  made : ∀ inner, reg.messageMarshaller? i.type = some inner → ∃ frame,
    reg.write inner i = .ok frame ∧ frame.length < UInt64.size ∧
      ((nested.run inner frame).result = .ok j ∨
        (nested.run inner frame).result = .error (.wire (.recursionLimit nestingLimit)) ∧
          j = answer inner)

section

variable {reg : Registry} {nested : NestedReader} {answer : MessageMarshaller → Instance}
  {m inner : MessageMarshaller} {x y i j : Instance} {frame b : Bytes} {t : TypeId} {levels n : Nat}

theorem rescue_of_ok (h : (nested.run m frame).result = .ok i) :
    ((nested.rescue answer).run m frame).result = .ok i := by
  rw [NestedReader.rescue, NestedReader.run, h, Logged.result_pure]

theorem rescue_of_limit
    (h : (nested.run m frame).result = .error (.wire (.recursionLimit nestingLimit))) :
    ((nested.rescue answer).run m frame).result = .ok (answer m) := by
  rw [NestedReader.rescue, NestedReader.run, h]
  simp only [if_true, Logged.result_pure]

/-- An answer is given only where levels ran out. -/
theorem related_rescue : nested.Related @Limited reg (nested.rescue answer) := by
  refine .limited fun m frame ↦ ?_
  cases h : (nested.run m frame).result with
  | ok i => exact .inl rfl
  | error e =>
    by_cases he : e = .wire (.recursionLimit nestingLimit)
    · exact .inr (congrArg _ he)
    · simp only [if_neg he]
      exact .inl rfl

theorem Registry.Closed.decodeAt_write (hreg : reg.Closed) (hm : reg.messageMarshaller? t = some m)
    (hx : reg.WellTyped n m x) (hb : reg.write m x = .ok b) (hl : b.length < UInt64.size)
    (levels : Nat) :
    (∃ y, (reg.decodeAt levels m b).result = .ok y ∧ y.type = m.type) ∨
      (reg.decodeAt levels m b).result = .error (.wire (.recursionLimit nestingLimit)) := by
  have hx' : reg.WellTyped (levels + n) m x :=
    hx.of_nesting_le (Nat.le_trans hx.nesting_le (Nat.le_add_left n levels))
  obtain ⟨b', hb', hread⟩ := hreg.roundTrip (levels + n) hm hx'
  obtain rfl := Except.ok.inj (hb.symm.trans hb')
  obtain ⟨y, hy, hsame⟩ := hread hl
  rcases limited_decodeAt reg levels n m b with h | h
  · exact .inl ⟨y, h.symm.trans hy, hsame.type⟩
  · exact .inr h

theorem Registry.Closed.run_write (hreg : reg.Closed) (hm : reg.messageMarshaller? t = some m)
    (hx : reg.WellTyped n m x) (hb : reg.write m x = .ok b) (hl : b.length < UInt64.size)
    (levels : Nat) :
    (∃ y, ((reg.nestedAt levels).run m b).result = .ok y ∧ y.type = m.type) ∨
      ((reg.nestedAt levels).run m b).result =
        .error (.wire (.recursionLimit nestingLimit)) := by
  cases levels with
  | zero => exact .inr rfl
  | succ levels => exact hreg.decodeAt_write hm hx hb hl levels

theorem Registry.Closed.trips_rescue (hreg : reg.Closed)
    (hanswer : ∀ inner, (answer inner).type = inner.type) (levels : Nat)
    (hi : ∀ inner, reg.messageMarshaller? t = some inner → reg.WellTyped n inner i) :
    Trips reg reg.write ((reg.nestedAt levels).rescue answer)
      ((reg.nestedAt levels).StandsIn reg answer) t i := by
  intro inner hinner
  have hi := hi inner hinner
  have hunique : ∀ inner', reg.messageMarshaller? i.type = some inner' → inner' = inner := by
    intro inner' h
    rw [hi.type.trans (hreg.type_eq hinner), hinner] at h
    exact (Option.some.inj h).symm
  obtain ⟨frame, hframe, -⟩ := hreg.roundTrip n hinner hi
  refine ⟨frame, hframe, fun hlframe ↦ ⟨_, rfl, ?_⟩⟩
  rcases hreg.run_write hinner hi hframe hlframe levels with ⟨j, hj, hjtype⟩ | hlimit
  · refine ⟨j, rescue_of_ok hj, hjtype.trans hi.type.symm, fun inner' h ↦ ?_⟩
    rw [hunique inner' h]
    exact ⟨frame, hframe, hlframe, .inl hj⟩
  · refine ⟨_, rescue_of_limit hlimit, (hanswer inner).trans hi.type.symm, fun inner' h ↦ ?_⟩
    rw [hunique inner' h]
    exact ⟨frame, hframe, hlframe, .inr ⟨hlimit, rfl⟩⟩

theorem Registry.Closed.returns_standsIn (hreg : reg.Closed)
    (hm : reg.messageMarshaller? t = some m) (hx : reg.WellTyped n m x)
    (hb : reg.write m x = .ok b) (hl : b.length < UInt64.size)
    (hy : (reg.decodeAt levels m b).result = .ok y)
    (hanswer : ∀ inner, (answer inner).type = inner.type) :
    m.Returns ((reg.nestedAt levels).StandsIn reg answer) x y := by
  obtain ⟨P, hadmits, hP⟩ := hx.exists_admits
  have htrips : ∀ target i, P target i → Trips reg reg.write ((reg.nestedAt levels).rescue answer)
      ((reg.nestedAt levels).StandsIn reg answer) target i := by
    intro target i hi
    obtain ⟨below, -, hbelow⟩ := hP target i hi
    exact hreg.trips_rescue hanswer levels hbelow
  obtain ⟨b', hb', hread⟩ := roundTrip_step (hreg.wellFormed t m hm) (hreg.resolved t m hm)
    (fun _ _ h ↦ h.type) hadmits hx.storesBack fun _ _ target i _ ↦ htrips target i
  obtain rfl := Except.ok.inj (hb.symm.trans hb')
  obtain ⟨y', hy', hreturns⟩ := hread hl
  -- The rescuing reader builds the same instance, since the levels did not run out.
  rw [Registry.decodeAt_eq] at hy
  have hlimited : Limited (m.decodeWith reg (reg.nestedAt levels) b).result
      (m.decodeWith reg ((reg.nestedAt levels).rescue answer) b).result :=
    limited_decodeWith related_rescue b
  rcases hlimited with h | h
  · obtain rfl : y' = y := Except.ok.inj ((hy'.symm.trans h).trans hy)
    exact hreturns
  · rw [hy] at h
    cases h

theorem Plan.Returned.exists_instance {R : Instance → Instance → Prop} {p : Plan} {v w : Value}
    (h : p.Returned R v w) {k : Nat} (hi : v.instances[k]? = some i) :
    ∃ j, w.instances[k]? = some j ∧ R i j := by
  cases h with
  | same h => exact exists_getElem?_of_forall₂ h.instances hi
  | default _ _ | single _ _ _ | double _ _ _ => cases hi

theorem Registry.Closed.exists_run_child (hreg : reg.Closed)
    (hm : reg.messageMarshaller? t = some m) (hx : reg.WellTyped n m x)
    (hb : reg.write m x = .ok b) (hl : b.length < UInt64.size)
    (hy : (reg.decodeAt levels m b).result = .ok y) {target : TypeId}
    (hi : (target, i) ∈ m.children x) (hinner : reg.messageMarshaller? target = some inner) :
    ∃ frame j, reg.write inner i = .ok frame ∧ frame.length < UInt64.size ∧
      ((reg.nestedAt levels).run inner frame).result = .ok j := by
  obtain ⟨below, -, hbelow⟩ := hx.of_mem_children hi
  have htype : reg.messageMarshaller? i.type = some inner := by
    rw [(hbelow inner hinner).type, hreg.type_eq hinner, hinner]
  obtain ⟨p, hp, -, v, hv, hi⟩ := MessageMarshaller.mem_children.1 hi
  obtain ⟨k, hk⟩ := List.mem_iff_getElem?.1 hi
  have hshows : ∀ members, ∃ w, m.layout.get? y p.path = some w ∧ ∃ j, w.instances[k]? = some j ∧
      (reg.nestedAt levels).StandsIn reg (fun m ↦ .record m.type members [] .empty) i j := by
    intro members
    have hreturns : m.Returns ((reg.nestedAt levels).StandsIn reg
        (fun m ↦ .record m.type members [] .empty)) x y :=
      hreg.returns_standsIn hm hx hb hl hy fun _ ↦ rfl
    obtain ⟨v', w, hv', hw, hreturned⟩ := hreturns.members p hp
    obtain rfl := Option.some.inj (hv.symm.trans hv')
    exact ⟨w, hw, hreturned.exists_instance hk⟩
  -- Of two answers one at most is what shows.
  obtain ⟨w, hw, j, hj, hstands⟩ := hshows []
  obtain ⟨w', hw', j', hj', hstands'⟩ := hshows [none]
  obtain rfl := Option.some.inj (hw.symm.trans hw')
  obtain rfl := Option.some.inj (hj.symm.trans hj')
  obtain ⟨frame, hframe, hlframe, hrun | ⟨-, hanswer⟩⟩ := hstands.made inner htype
  · exact ⟨frame, j, hframe, hlframe, hrun⟩
  · obtain ⟨frame, hframe, hlframe, hrun | ⟨-, hanswer'⟩⟩ := hstands'.made inner htype
    · exact ⟨frame, j, hframe, hlframe, hrun⟩
    · cases hanswer.symm.trans hanswer'

/-- **Levels that are not left are missed.** If what was written of an instance is read with some
levels, no more levels nest in the instance. -/
theorem Registry.Closed.nesting_le_of_decodeAt (hreg : reg.Closed)
    (hm : reg.messageMarshaller? t = some m) (hx : reg.WellTyped n m x)
    (hb : reg.write m x = .ok b) (hl : b.length < UInt64.size)
    (hy : (reg.decodeAt levels m b).result = .ok y) : reg.nesting m x ≤ levels := by
  induction levels generalizing t m n x b y with
  | zero =>
    rw [Registry.nesting_le_iff]
    intro target i hi
    obtain ⟨inner, hinner⟩ := hreg.exists_of_mem_children hm hi
    obtain ⟨frame, j, -, -, hrun⟩ := hreg.exists_run_child hm hx hb hl hy hi hinner
    cases hrun
  | succ levels ih =>
    rw [Registry.nesting_le_iff]
    intro target i hi
    obtain ⟨inner, hinner⟩ := hreg.exists_of_mem_children hm hi
    obtain ⟨frame, j, hframe, hlframe, hrun⟩ := hreg.exists_run_child hm hx hb hl hy hi hinner
    obtain ⟨below, -, hbelow⟩ := hx.of_mem_children hi
    rw [hinner]
    exact Nat.lt_succ_of_le (ih hinner (hbelow inner hinner) hframe hlframe hrun)

end

/-- **Nesting is bounded exactly.** Whatever the registry, messages are read with readers that open
one below the other, and what readers beyond the limit would do has no part in it. If the registry
was compiled, what is encoded of a well-typed instance is decoded if its messages nest no more
deeply than the limit, and fails for that reason if they do. -/
theorem Registry.nesting_bounded (reg : Registry) :
    (∀ read, reg.OpensReaders read ↔
      ∀ m r, r.depth ≤ nestingLimit → read m r = reg.readWith m r) ∧
    (reg.Compiled → ∀ (t : TypeId) (m : MessageMarshaller) (x : Instance) (levels : Nat),
      reg.messageMarshaller? t = some m → reg.WellTyped levels m x →
        ∃ b, reg.encode x = .ok b ∧ (b.length < UInt64.size →
          (reg.nesting m x ≤ nestingLimit → ∃ y, (reg.decode t b).result = .ok y) ∧
          (nestingLimit < reg.nesting m x →
            (reg.decode t b).result = .error (.wire (.recursionLimit nestingLimit))))) := by
  refine ⟨fun read ↦ opensReaders_iff, fun hreg t m x levels hm hx ↦ ?_⟩
  have hclosed := hreg.closed
  have ht := hclosed.type_eq hm
  obtain ⟨b, hb, -⟩ := hclosed.roundTrip levels hm hx
  refine ⟨b, by rw [encode, hx.type, ht, hm]; exact hb, fun hl ↦ ⟨fun hle ↦ ?_, fun hlt ↦ ?_⟩⟩
  · obtain ⟨b', hb', hread⟩ := hclosed.roundTrip nestingLimit hm (hx.of_nesting_le hle)
    obtain rfl := Except.ok.inj (hb.symm.trans hb')
    obtain ⟨y, hy, hsame⟩ := hread hl
    exact ⟨y, (decode_eq_ok hm).2 ⟨hy, hsame.type.trans ht⟩⟩
  · refine decode_eq_error hm ?_
    refine (hclosed.decodeAt_write hm hx hb hl nestingLimit).resolve_left ?_
    rintro ⟨y, hy, -⟩
    exact absurd (hclosed.nesting_le_of_decodeAt hm hx hb hl hy) (Nat.not_le.2 hlt)

/-! ## A schema of chains -/

namespace Chain

def link : TypeId := ⟨"chain::Link"⟩

/-- A link, in which the next one may nest. -/
def linkInfo : TypeInfo :=
  .storing link
    [({ name := "next", kind := .field (.optional (.message (.of link))), getter := ·
        number := some 1 })]

def environment : Environment := [linkInfo]

def registry : Registry :=
  CompilationUnit.registry { fileName := "chain.proto", requested := [.of link] } environment

theorem compiled_registry : registry.Compiled := CompilationUnit.compiled_registry _ _

def nextPlan : Plan where
  field :=
    ⟨1, "next", .lengthDelimited, .optional, .message "Link", none, none, true, false, none, none⟩
  element := .message link
  path := [0]

theorem exists_link :
    ∃ m, registry.messageMarshaller? link = some m ∧ m.type = link ∧ m.plans = [nextPlan] ∧
      m.layout = .storing link ["next"] := by
  refine CompilationUnit.exists_marshaller linkInfo (by decide +kernel) (.head _)
    (by decide +kernel) ?_
  rintro message ⟨⟩
  cbv

/-- What the first link of a chain holds. -/
def next : Nat → Value
  | 0 => .absent
  | n + 1 => .message (.record link [some (next n)] [] .empty)

/-- A link with the given number of links below it. -/
def chain (n : Nat) : Instance := .record link [some (next n)] [] .empty

variable {m : MessageMarshaller} (hm : registry.messageMarshaller? link = some m)
include hm

theorem get?_chain (n : Nat) : m.layout.get? (chain n) nextPlan.path = some (next n) := by
  obtain ⟨m', hm', -, -, hlayout⟩ := exists_link
  obtain rfl := Option.some.inj (hm.symm.trans hm')
  rw [hlayout]
  exact Layout.get?_storing (by decide)

theorem wellTyped_chain (n : Nat) : registry.WellTyped n m (chain n) := by
  obtain ⟨m', hm', htype, hplans, hlayout⟩ := exists_link
  obtain rfl := Option.some.inj (hm.symm.trans hm')
  have hadmits : ∀ n P, nextPlan.Fits registry P (next n) → m.Admits registry P (chain n) := by
    refine fun n P hfit ↦ ⟨htype.symm, ?_, ?_, [], ?_, fun r hr ↦ by cases hr⟩
    · rw [hplans, List.forall_mem_singleton]
      exact ⟨_, get?_chain hm n, hfit⟩
    · rw [hplans]
      intro p hp q _ g v w hg
      rw [List.mem_singleton.1 hp] at hg
      cases hg
    · rw [chain, ← htype, MessageMarshaller.retained_storing (htype ▸ hlayout)]
      exact .nil
  have hstores : ∀ n, m.StoresBack (chain n) := by
    refine fun n ↦ MessageMarshaller.storesBack_of_storing (htype ▸ hlayout) ?_
    rw [hplans, List.forall_mem_singleton]
    exact ⟨_, get?_chain hm n, fun _ ↦ rfl⟩
  induction n with
  | zero => exact ⟨hadmits 0 _ (.inl ⟨rfl, rfl⟩), hstores 0⟩
  | succ n ih =>
    refine ⟨hadmits (n + 1) _ (.inr fun inner hinner ↦ ?_), hstores (n + 1)⟩
    obtain rfl := Option.some.inj (hm.symm.trans hinner)
    exact ih

theorem nesting_chain (n : Nat) : registry.nesting m (chain n) = n := by
  refine Nat.le_antisymm (wellTyped_chain hm n).nesting_le ?_
  induction n with
  | zero => exact Nat.zero_le _
  | succ n ih =>
    obtain ⟨m', hm', -, hplans, -⟩ := exists_link
    obtain rfl := Option.some.inj (hm.symm.trans hm')
    have hbelow : (link, chain n) ∈ m.children (chain (n + 1)) :=
      MessageMarshaller.mem_children.2 ⟨nextPlan, by rw [hplans]; exact .head _, rfl, _,
        get?_chain hm (n + 1), .head _⟩
    exact Nat.lt_of_le_of_lt ih (Registry.nesting_lt_of_mem_children hbelow hm)

end Chain

/-- A chain of as many links below the first as the limit has levels is decoded, and a chain of one
more is not. -/
theorem Chain.nesting_bounded_chain : ∃ m, registry.messageMarshaller? link = some m ∧
    (registry.WellTyped nestingLimit m (chain nestingLimit) ∧
      registry.nesting m (chain nestingLimit) = nestingLimit ∧
        ∃ b y, registry.encode (chain nestingLimit) = .ok b ∧
          (registry.decode link b).result = .ok y) ∧
    registry.WellTyped (nestingLimit + 1) m (chain (nestingLimit + 1)) ∧
      registry.nesting m (chain (nestingLimit + 1)) = nestingLimit + 1 ∧
        ∃ b, registry.encode (chain (nestingLimit + 1)) = .ok b ∧
          (registry.decode link b).result = .error (.wire (.recursionLimit nestingLimit)) := by
  obtain ⟨m, hm, -⟩ := exists_link
  have hlength : ((registry.encode (chain nestingLimit)).toOption.map (·.length),
      (registry.encode (chain (nestingLimit + 1))).toOption.map (·.length)) =
        (some 236, some 239) := by
    decide +kernel
  rw [Prod.mk.injEq] at hlength
  have hword : ∀ {n l : Nat} {b : Bytes}, l < UInt64.size →
      (registry.encode (chain n)).toOption.map (·.length) = some l →
        registry.encode (chain n) = .ok b → b.length < UInt64.size := by
    intro n l b hl h hb
    rw [hb] at h
    cases h
    exact hl
  obtain ⟨b, hb, hread⟩ := (Registry.nesting_bounded registry).2 compiled_registry link m
    (chain nestingLimit) nestingLimit hm (wellTyped_chain hm _)
  obtain ⟨b', hb', hread'⟩ := (Registry.nesting_bounded registry).2 compiled_registry link m
    (chain (nestingLimit + 1)) (nestingLimit + 1) hm (wellTyped_chain hm _)
  obtain ⟨y, hy⟩ := (hread (hword (by decide) hlength.1 hb)).1 (Nat.le_of_eq (nesting_chain hm _))
  have herror := (hread' (hword (by decide) hlength.2 hb')).2
    (by rw [nesting_chain hm]; exact Nat.lt_succ_self _)
  exact ⟨m, hm, ⟨wellTyped_chain hm _, nesting_chain hm _, b, y, hb, hy⟩, wellTyped_chain hm _,
    nesting_chain hm _, b', hb', herror⟩

end ProtoSchema
