import ProtoSchema.Proofs.Codec.Instance

/-!
# Values that have settled

A value that was written and read back once is settled: writing it again, the reader hands over the
very same value. An unset member may have become its declared default in the first reading and a
float a default that is the same number, but a second reading changes nothing more.

A settled value also fits its field again, so that it can be written at all. For a closed enum this
takes care: an unset member becomes the declared default of its field whether the registered enum
declares that number or not.
-/

set_option autoImplicit false

namespace ProtoSchema

open Wire

/-! ## Plans that agree -/

section

variable {reg : Registry} {P : TypeId → Instance → Prop} {p q : Plan} {v : Value}

theorem Plan.Agrees.fits (h : p.Agrees q) (hfit : p.Fits reg P v) : q.Fits reg P v := by
  unfold Plan.Fits at hfit ⊢
  rw [h.cardinality, h.presence, h.element, h.mapKey]
  exact hfit

theorem Plan.Agrees.handed (h : p.Agrees q) (v : Value) : q.handed v = p.handed v := by
  rw [Plan.handed, Plan.handed, MessageMarshaller.isImplicit, MessageMarshaller.isImplicit,
    h.presence, h.cardinality, h.default, h.defaultValue?]

end

/-! ## Numbers -/

theorem Floating.Format.numericallyEqual_self {f : Floating.Format} {a b : Nat}
    (h : f.numericallyEqual a b = true) : f.numericallyEqual b b = true := by
  unfold numericallyEqual at h ⊢
  split at h
  · cases h
  · cases h
  · rw [beq_self_eq_true, Bool.true_or]

/-! ## Values that fit again

Fitting does not depend on which of two equal values is looked at. The elements of lists and the
values of maps are compared one by one. -/

section

variable {reg : Registry} {P Q : TypeId → Instance → Prop} {R : Instance → Instance → Prop}
  {e : Element} {p : Plan} {v w : Value}

theorem Element.Fits.same (hPQ : ∀ t i j, e = .message t → P t i → R i j → Q t j)
    (hfit : e.Fits reg P v) (h : Value.SameElement R v w) : e.Fits reg Q w := by
  cases h with
  | plain hv =>
    cases e with
    | scalar s => exact hfit
    | enum target isOpen => cases v <;> exact hfit
    | message target =>
      cases v with
      | message i => cases hv
      | _ => cases hfit
  | message hij =>
    cases e with
    | scalar s =>
      obtain ⟨payload, hp⟩ := hfit
      cases s <;> cases hp
    | enum target isOpen => cases hfit
    | message target => exact hPQ _ _ _ rfl hfit hij

theorem Element.Fits.sameElement (hfit : e.Fits reg P v) (h : Value.Same R v w) :
    Value.SameElement R v w := by
  cases h with
  | element h => exact h
  | list _ | map _ =>
    cases e with
    | scalar s =>
      obtain ⟨payload, hp⟩ := hfit
      cases s <;> cases hp
    | enum target isOpen => cases hfit
    | message target => cases hfit

theorem Element.Fits.of_same (hPQ : ∀ t i j, e = .message t → P t i → R i j → Q t j)
    (hfit : e.Fits reg P v) (h : Value.Same R v w) : e.Fits reg Q w :=
  hfit.same hPQ (hfit.sameElement h)

/-- What is the same as a value that fits, fits. -/
theorem Plan.Fits.of_same (hPQ : ∀ t i j, p.element = .message t → P t i → R i j → Q t j)
    (hfit : p.Fits reg P v) (h : Value.Same R v w) : p.Fits reg Q w := by
  unfold Plan.Fits at hfit ⊢
  split
  · next hc =>
    rw [hc] at hfit
    exact Element.Fits.of_same hPQ hfit h
  · next hc =>
    rw [hc] at hfit
    rcases hfit with ⟨rfl, hpres⟩ | hfit
    · exact .inl ⟨h.eq_of_isPlain rfl, hpres⟩
    · exact .inr (Element.Fits.of_same hPQ hfit h)
  · next hc =>
    rw [hc] at hfit
    obtain ⟨vs, rfl, hfit⟩ := hfit
    cases h with
    | element h => cases h with | plain hv => cases hv
    | @list _ ws hall =>
      refine ⟨ws, rfl, fun b hb ↦ ?_⟩
      obtain ⟨a, ha, hab⟩ := exists_of_forall₂_right hall hb
      exact (hfit a ha).same hPQ hab
  · next hc =>
    rw [hc] at hfit
    obtain ⟨es, rfl, hfit⟩ := hfit
    cases h with
    | element h => cases h with | plain hv => cases hv
    | @map _ fs hall =>
      refine ⟨fs, rfl, fun f hf ↦ ?_⟩
      obtain ⟨e, he, hef⟩ := exists_of_forall₂_right hall hf
      exact ⟨fun s hs ↦ hef.1 ▸ (hfit e he).1 s hs, (hfit e he).2.same hPQ hef.2⟩

/-! ## Defaults that fit

Declared defaults were checked when the field was built, those of enums by a description of the
enum. The registered enum may have been built from another one, which is where an assumption is
needed. -/

/-- The number that a field of a closed enum declares as its default, if an unset member may become
it, is declared by the registered enum. -/
def Plan.DefaultDeclared (reg : Registry) (p : Plan) : Prop :=
  ∀ target n e, p.element = .enum target false → p.field.presence = true →
    p.defaultValue? = some (.enum n) → reg.enumMarshaller? target = some e → e.isKnown n = true

theorem Element.toPayload?_of_defaultValue? {s : Scalar} {d : DefaultValue}
    (h : (Element.scalar s).defaultValue? d = some v) :
    ∃ payload, s.toPayload? v = some payload := by
  cases s <;> cases d <;> cases h <;> exact ⟨_, rfl⟩

theorem Plan.fits_defaultValue? (hd : p.DefaultDeclared reg) (hpres : p.field.presence = true)
    (h : p.defaultValue? = some v) : p.element.Fits reg P v := by
  obtain ⟨d, -, hv⟩ := Option.bind_eq_some_iff.1 h
  cases he : p.element with
  | scalar s =>
    rw [he] at hv
    exact Element.toPayload?_of_defaultValue? hv
  | enum target isOpen =>
    rw [he] at hv
    cases d <;> cases hv
    rintro rfl e hreg
    exact hd target _ e he hpres h hreg
  | message target =>
    rw [he] at hv
    cases d <;> cases hv

theorem Element.isDefault_defaultValue? {d : DefaultValue} (hfit : e.Fits reg P v)
    (hw : e.defaultValue? d = some w) (h : isDefault v (some d) = true) :
    isDefault w (some d) = true ∧ e.Fits reg Q w := by
  cases e with
  | scalar s =>
    refine ⟨?_, Element.toPayload?_of_defaultValue? hw⟩
    obtain ⟨payload, hpay⟩ := hfit
    cases s <;> cases v <;> cases hpay <;> cases d <;> cases hw
    case float.f32.refl.float.refl x b => exact Floating.Format.numericallyEqual_self h
    case double.f64.refl.float.refl x b => exact Floating.Format.numericallyEqual_self h
    all_goals
      obtain rfl := eq_of_beq h
      simp [isDefault]
  | enum target isOpen =>
    cases v <;> cases d <;> cases hw
    case enum.enum.refl n name number =>
      obtain rfl := eq_of_beq h
      exact ⟨h, hfit⟩
    all_goals cases hfit
  | message target => cases d <;> cases hw

/-! ## Settling

The first reading may hand over something else than what was written. The cases are those in which
it does: an unset member that has a default, and a value that counts as one. -/

theorem Value.Same.isAbsent_eq (h : Value.Same R v w) : w.isAbsent = v.isAbsent := by
  cases h with
  | element h => cases h <;> rfl
  | list _ => rfl
  | map _ => rfl

theorem Plan.isDefault_of_same (hfit : p.element.Fits reg P v) (h : Value.Same R v w)
    (d : Option DefaultValue) : isDefault w d = isDefault v d := by
  cases hfit.sameElement h with
  | plain _ => rfl
  | message _ =>
    cases d with
    | none => rfl
    | some d => cases d <;> rfl

theorem Plan.handed_of_not_default (habs : v.isAbsent = false)
    (hdef : ¬(MessageMarshaller.isImplicit p && isDefault v p.field.default) = true) :
    p.handed v = some v := by
  rw [Plan.handed, habs, Bool.false_or, if_neg hdef]

theorem Plan.Fits.of_element (hc : p.field.cardinality = .optional) (h : p.element.Fits reg P v) :
    p.Fits reg P v := by
  unfold Plan.Fits
  rw [hc]
  exact .inr h

/-- **Values settle.** What a getter shows of the slot that was filled for a member is handed over
as what stood in the slot, and fits the field again. -/
theorem Plan.settled {o : Option Value} (hp : p.WellFormed) (hd : p.DefaultDeclared reg)
    (hPQ : ∀ t i j, p.element = .message t → P t i → R i j → Q t j) (hfit : p.Fits reg P v)
    (ho : Option.Rel (Value.Same R) (p.handed v) o) (hw : p.Shows o w) :
    p.handed w = o ∧ p.Fits reg Q w := by
  cases Plan.shown_of_shows hp hfit ho hw with
  | unset hv hpres hdv =>
    have hsame : Value.Same R v .absent := by
      rw [hv]
      exact .element (.plain rfl)
    rw [Plan.handed, Value.isAbsent, Bool.true_or, if_pos rfl, hdv]
    exact ⟨rfl, hfit.of_same hPQ hsame⟩
  | default _ hpres hc hdv =>
    have hdef := Plan.fits_defaultValue? (P := Q) hd hpres hdv
    refine ⟨Plan.handed_of_not_default hdef.isAbsent ?_, .of_element hc hdef⟩
    rw [MessageMarshaller.isImplicit, hpres]
    exact Bool.false_ne_true
  | @zero s himp hdecl hs _ _ =>
    have hzero : isDefault s.zero none = true := by cases s <;> rfl
    refine ⟨?_, .of_element (Plan.isImplicit_eq_true.1 himp).2 ?_⟩
    · rw [Plan.handed, hdecl, himp, hzero, Bool.and_true, Bool.or_true, if_pos rfl,
        Plan.defaultValue?, hdecl, Option.bind_none]
    · rw [hs]
      cases s <;> exact ⟨_, rfl⟩
  | declared himp hdecl hdv hfit hdef =>
    obtain ⟨hdef, hfit⟩ := Element.isDefault_defaultValue? (Q := Q) hfit hdv hdef
    refine ⟨?_, .of_element (Plan.isImplicit_eq_true.1 himp).2 hfit⟩
    rw [Plan.handed, hdecl, himp, hdef, Bool.and_true, Bool.or_true, if_pos rfl,
      Plan.defaultValue?, hdecl, Option.bind_some, hdv]
  | kept habs hdef h =>
    refine ⟨Plan.handed_of_not_default (h.isAbsent_eq.trans habs) ?_, hfit.of_same hPQ h⟩
    by_cases himp : MessageMarshaller.isImplicit p = true
    · rwa [Plan.isDefault_of_same (hfit.element habs (Plan.isImplicit_eq_true.1 himp).2) h]
    · rw [Bool.not_eq_true] at himp
      rw [himp]
      exact Bool.false_ne_true

end

end ProtoSchema
