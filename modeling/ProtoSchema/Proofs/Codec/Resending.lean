import ProtoSchema.Proofs.Codec.Settled
import ProtoSchema.Proofs.Codec.Storing
import ProtoSchema.Proofs.Codec.Version

/-!
# What an older version sends on

An instance of a type was sent, and an older version of the type has read it. What that version
writes then are sendings, too: one for each of its own fields, and behind them those of the newer
type that it does not know and has retained byte for byte. Both kinds fill what was filled before,
the retained ones trivially and the others because their values have settled. So the newer type
makes of all of them together what it makes of its own sendings, in whatever order they come.

The older version must not lose anything to declared defaults. A default in a oneof could displace
the member that was set, and the default of a closed enum could be a number that is not read back.
-/

set_option autoImplicit false

namespace ProtoSchema

open Wire

/-- No default of the type displaces a member of a oneof or cannot be read back. -/
structure MessageMarshaller.SafeDefaults (m : MessageMarshaller) (reg : Registry) : Prop where
  oneof : ∀ p ∈ m.plans, p.field.oneof ≠ none → p.field.default = none
  declared : ∀ p ∈ m.plans, p.DefaultDeclared reg

/-! ## What the older version stores -/

/-- The factories of `m₁` store what they are handed when the instance `x` of `m₂` is read as one of
`m₁`, together with the given unknown fields. -/
def MessageMarshaller.StoresFrom (m₁ m₂ : MessageMarshaller) (x : Instance)
    (unknown : UnknownFields) : Prop :=
  ∀ hand : List Nat → Option Value,
    (∀ q ∈ m₁.plans, ∀ p ∈ m₂.plans, p.field.number = q.field.number →
      ∀ v, m₂.layout.get? x p.path = some v →
        Option.Rel (Value.Same fun i j ↦ j.type = i.type) (p.handed v) (hand q.path)) →
    m₁.Stores hand unknown

/-- Storing records store what a newer version was read as, too. -/
theorem MessageMarshaller.storesFrom_of_storing {m₁ m₂ : MessageMarshaller} {x : Instance}
    {names : List String} (hl : m₁.layout = .storing m₁.type names)
    (h : ∀ q ∈ m₁.plans, ∃ p ∈ m₂.plans, p.field.number = q.field.number ∧
      ∃ v, m₂.layout.get? x p.path = some v ∧ (p.handed v = none → q.field.presence = true))
    (unknown : UnknownFields) : m₁.StoresFrom m₂ x unknown := by
  intro hand hhand
  refine stores_of_storing hl (fun q hq hnone ↦ ?_) _
  obtain ⟨p, hp, hn, v, hv, hpres⟩ := h q hq
  exact hpres (rel_none (hnone ▸ hhand q hq p hp hn v hv))

section

variable {reg : Registry} {nested : NestedReader} {R : Instance → Instance → Prop}
  {P : TypeId → Instance → Prop} {m₁ m₂ : MessageMarshaller} {x x₁ : Instance}
  {sendings sendings₁ : List Sending}

/-- A member of the older version, as it was stored there: it is handed over again as it was handed
over first, it can be written again, and it is unset if the member of the newer version is. -/
structure Plan.Resent (reg : Registry) (nested : NestedReader) (q : Plan) (p : Plan) (v w : Value)
    (o : Option Value) : Prop where
  agrees : p.Agrees q
  handed : q.handed w = o
  fits : q.Fits reg (Trips reg reg.write nested Eq) w
  absent : q.field.oneof ≠ none → w.isAbsent = false → v.isAbsent = false

/-- The older version stored every member of its own as it is sent on. -/
def Resends (reg : Registry) (nested : NestedReader) (m₁ m₂ : MessageMarshaller) (x x₁ : Instance)
    (sendings : List Sending) : Prop :=
  ∀ q ∈ m₁.plans, ∃ p ∈ m₂.plans, ∃ v w, m₂.layout.get? x p.path = some v ∧
    m₁.layout.get? x₁ q.path = some w ∧
      q.Resent reg nested p v w (filledAt sendings q.field.number)

theorem Plan.isAbsent_of_shows {q : Plan} {v w : Value} {o : Option Value}
    (hpres : q.field.presence = true) (hdefault : q.field.default = none)
    (hrel : Option.Rel (Value.Same R) (q.handed v) o) (hshow : q.Shows o w)
    (hv : v.isAbsent = true) : w.isAbsent = true := by
  rw [Plan.handed, hv, Bool.true_or, if_pos rfl, Plan.defaultValue?, hdefault,
    Option.bind_none] at hrel
  cases hrel
  rw [Plan.Shows, if_pos hpres] at hshow
  rw [hshow]
  rfl

/-- The members of the older version have settled. -/
theorem resends_of_shows (hm₁ : m₁.WellFormed) (hm₂ : m₂.WellFormed) (hver : m₁.VersionOf m₂)
    (hsafe : m₁.SafeDefaults reg) (hx : m₂.Admits reg P x)
    (h : m₂.Sends reg nested R x sendings)
    (hPR : ∀ q ∈ m₁.plans, ∀ t i j, q.element = .message t → P t i → R i j →
      Trips reg reg.write nested Eq t j)
    (hshows : ∀ q ∈ m₁.plans, ∃ w, m₁.layout.get? x₁ q.path = some w ∧
      q.Shows (m₁.hand (filledAt sendings) q.path) w) :
    Resends reg nested m₁ m₂ x x₁ sendings := by
  intro q hq
  obtain ⟨p, hp, ha⟩ := hver q hq
  obtain ⟨v, hv, hfit⟩ := hx.fits p hp
  obtain ⟨w, hw, hshow⟩ := hshows q hq
  rw [hm₁.hand_path hq] at hshow
  have hrel := h.handed_filledAt hm₂ hp hv
  rw [← ha.handed, ← ha.number] at hrel
  have hwf := hm₁.plans q hq
  obtain ⟨hhanded, hfits⟩ := Plan.settled hwf (hsafe.declared q hq) (hPR q hq) (ha.fits hfit)
    hrel hshow
  refine ⟨p, hp, v, w, hv, hw, ha, hhanded, hfits, fun hg habs ↦ ?_⟩
  -- An unset member of a oneof has no default that it could have become.
  rw [← Bool.not_eq_true]
  intro hvabs
  obtain ⟨g, honeof⟩ := Option.ne_none_iff_exists'.1 hg
  rw [Plan.isAbsent_of_shows (hwf.oneof g honeof).2 (hsafe.oneof q hq hg) hrel hshow hvabs] at habs
  cases habs

/-! ## What the older version writes

Retained records stand behind those of the fields, and no number occurs among both. So what the
older version writes is one list of sendings, each of which comes from a member of the newer
version. -/

/-- Where a sending of the older version comes from: a member of the newer one, which the sending
fills as it was filled before. -/
structure Sending.From (s : Sending) (sendings : List Sending) (p : Plan) (v : Value) : Prop where
  agrees : s.plan.Agrees p
  filled : s.filled = filledAt sendings p.field.number
  absent : s.plan.field.oneof ≠ none → s.value.isAbsent = false → v.isAbsent = false

theorem exists_from (hm₂ : m₂.WellFormed) (h : m₂.Sends reg nested R x sendings)
    (h₁ : m₁.Sends reg nested Eq x₁ sendings₁) (hresends : Resends reg nested m₁ m₂ x x₁ sendings) :
    ∀ s ∈ sendings₁ ++ m₁.unknownTo sendings, ∃ p ∈ m₂.plans, ∃ v,
      m₂.layout.get? x p.path = some v ∧ s.From sendings p v := by
  intro s hs
  rcases List.mem_append.1 hs with hs | hs
  · obtain ⟨p, hp, v, w, hv, hw, hresent⟩ := hresends s.plan (h₁.mem hs)
    obtain rfl := Option.some.inj ((h₁.get s hs).symm.trans hw)
    refine ⟨p, hp, v, hv, hresent.agrees.symm, ?_, hresent.absent⟩
    -- What settled is handed over as it is.
    rw [Value.eq_of_rel (h₁.valid s hs).handed, hresent.handed, hresent.agrees.number]
  · have hs := (List.mem_filter.1 hs).1
    exact ⟨s.plan, h.mem hs, s.value, h.get s hs, .refl _,
      (filledAt_of_mem (h.nodup hm₂) hs).symm, fun _ h ↦ h⟩

theorem nodup_passed (hm₁ : m₁.WellFormed) (hm₂ : m₂.WellFormed)
    (h : m₂.Sends reg nested R x sendings) (h₁ : m₁.Sends reg nested Eq x₁ sendings₁) :
    ((sendings₁ ++ m₁.unknownTo sendings).map (·.plan.field.number)).Nodup := by
  rw [List.map_append, List.nodup_append]
  refine ⟨h₁.nodup hm₁, (h.nodup hm₂).sublist (List.filter_sublist.map _), ?_⟩
  intro n hn n' hn' heq
  obtain ⟨s, hs, rfl⟩ := List.mem_map.1 hn
  obtain ⟨s', hs', rfl⟩ := List.mem_map.1 hn'
  obtain ⟨k, hk⟩ := List.mem_iff_getElem?.1 (h₁.mem hs)
  have hnone := (List.mem_filter.1 hs').2
  rw [← heq, MessageMarshaller.plan?_of_getElem? hm₁.numbers hk] at hnone
  cases hnone

theorem exists_passed (h : m₂.Sends reg nested R x sendings)
    (h₁ : m₁.Sends reg nested Eq x₁ sendings₁) {p : Plan} (hp : p ∈ m₂.plans) :
    ∃ s ∈ sendings₁ ++ m₁.unknownTo sendings, s.plan.field.number = p.field.number := by
  cases hk : m₁.plan? p.field.number with
  | some found =>
    obtain ⟨hget, hn⟩ := MessageMarshaller.plan?_eq_some (show m₁.plan? _ = some (found.1, found.2)
      from hk)
    obtain ⟨s, hs, heq⟩ := h₁.exists_of_mem (List.mem_of_getElem? hget)
    exact ⟨s, List.mem_append_left _ hs, by rw [heq, hn]⟩
  | none =>
    obtain ⟨s, hs, rfl⟩ := h.exists_of_mem hp
    exact ⟨s, List.mem_append_right _ (List.mem_filter.2 ⟨hs, by rw [hk]; rfl⟩), rfl⟩

theorem exclusive_passed (hx : m₂.Admits reg P x)
    (hfrom : ∀ s ∈ sendings₁ ++ m₁.unknownTo sendings, ∃ p ∈ m₂.plans, ∃ v,
      m₂.layout.get? x p.path = some v ∧ s.From sendings p v) :
    Exclusive (sendings₁ ++ m₁.unknownTo sendings) := by
  intro s hs t ht g hg hg' hv hw
  obtain ⟨p, hp, v', hv', h⟩ := hfrom s hs
  obtain ⟨q, hq, w', hw', h'⟩ := hfrom t ht
  have hnum := hx.exclusive p hp q hq g v' w' (h.agrees.oneof.trans hg) (h'.agrees.oneof.trans hg')
    hv' hw' (h.absent (by rw [hg]; exact Option.some_ne_none g) hv)
    (h'.absent (by rw [hg']; exact Option.some_ne_none g) hw)
  rw [← h.agrees.number, hnum, h'.agrees.number]

/-- **Nothing is lost on the way.** What the newer version reads of the older version's bytes is
what it reads of its own. -/
theorem decodeWith_passed (hm₁ : m₁.WellFormed) (hm₂ : m₂.WellFormed) (hx : m₂.Admits reg P x)
    (h : m₂.Sends reg nested R x sendings) (h₁ : m₁.Sends reg nested Eq x₁ sendings₁)
    (hresends : Resends reg nested m₁ m₂ x x₁ sendings) :
    (m₂.decodeWith reg nested ((sendings₁ ++ m₁.unknownTo sendings).flatMap (·.bytes)
      ++ (m₂.retained x).bytes)).result = (m₂.decodeWith reg nested (sendings.flatMap (·.bytes)
        ++ (m₂.retained x).bytes)).result := by
  have hfrom := exists_from hm₂ h h₁ hresends
  have hn := nodup_passed hm₁ hm₂ h h₁
  obtain ⟨rs, hrs, hfresh⟩ := hx.retained
  have hvalid : ∀ s ∈ sendings₁ ++ m₁.unknownTo sendings, s.Valid reg nested fun _ _ ↦ True := by
    intro s hs
    rcases List.mem_append.1 hs with hs | hs
    · exact (h₁.valid s hs).mono fun _ _ _ ↦ trivial
    · exact (h.valid s (List.mem_filter.1 hs).1).mono fun _ _ _ ↦ trivial
  have hagree : ∀ s ∈ sendings₁ ++ m₁.unknownTo sendings, ∀ p ∈ m₂.plans,
      p.field.number = s.plan.field.number → s.plan.Agrees p := by
    intro s hs p hp hnum
    obtain ⟨p', hp', v, -, h⟩ := hfrom s hs
    rw [hm₂.numbers.eq_of_number hp hp' (hnum.trans h.agrees.number.symm)]
    exact h.agrees
  have hfilled : m₂.hand (filledAt (sendings₁ ++ m₁.unknownTo sendings))
      = m₂.hand (filledAt sendings) := by
    refine MessageMarshaller.hand_congr fun p hp ↦ ?_
    obtain ⟨s, hs, hnum⟩ := exists_passed h h₁ hp
    obtain ⟨p', -, v, -, h⟩ := hfrom s hs
    rw [← hnum, filledAt_of_mem hn hs, h.filled, h.agrees.number]
  have hnone : m₂.unknownTo (sendings₁ ++ m₁.unknownTo sendings) = [] := by
    refine MessageMarshaller.unknownTo_eq_nil hm₂ fun s hs ↦ ?_
    obtain ⟨p, hp, v, -, h⟩ := hfrom s hs
    exact ⟨p, hp, h.agrees.number⟩
  rw [decodeWith_self hm₂ hx h, decodeWith_sendings hm₂ hvalid hn hagree
    (fun p hp ↦ exists_passed h h₁ hp) (exclusive_passed hx hfrom) hrs
    (fun r hr ↦ MessageMarshaller.plan?_eq_none_of_forall (hfresh r hr)), hfilled, hnone]
  rfl

end

end ProtoSchema
