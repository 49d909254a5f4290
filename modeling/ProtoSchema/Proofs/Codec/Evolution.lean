import ProtoSchema.Proofs.Codec.Resending
import ProtoSchema.Proofs.Codec.RoundTrip

/-!
# Passing through an older version

An instance of a type is written, read as an instance of an older version of the type, written again
by that version and read back by the type itself. Nothing is lost: what the type is handed for a
field is what was handed for it before, and it retains what it retained before.

That the older version's own members settle is again a statement about writing and reading twice,
one level further down. There both versions are the same type, so the passage through an older
version is proved for two types and used for one.
-/

set_option autoImplicit false

namespace ProtoSchema

open Wire

/-- The instance is written and read by both types, what `m₁` read is written, too, and `m₂` reads
the same of both. -/
def Registry.PassesVia (reg : Registry) (nested : NestedReader) (m₁ m₂ : MessageMarshaller)
    (x : Instance) : Prop :=
  ∃ b, reg.write m₂ x = .ok b ∧ (b.length < UInt64.size → ∃ y x₁,
    (m₂.decodeWith reg nested b).result = .ok y ∧ y.type = m₂.type ∧
    (m₁.decodeWith reg nested b).result = .ok x₁ ∧ x₁.type = m₁.type ∧
    ∃ b₁, reg.write m₁ x₁ = .ok b₁ ∧ (b₁.length < UInt64.size →
      (m₂.decodeWith reg nested b₁).result = .ok y))

/-! ## One level

The older version keeps the fields that it declares, and all others as unknown fields. The newer one
finds each field in one of the two places, so it is handed again what it was handed before. -/

section

variable {reg : Registry} {nested : NestedReader} {R : Instance → Instance → Prop}
  {P : TypeId → Instance → Prop} {m₁ m₂ : MessageMarshaller} {x : Instance}

theorem exists_older {sendings : List Sending} (hm₁ : m₁.WellFormed) (hm₂ : m₂.WellFormed)
    (hver : m₁.VersionOf m₂) (hx : m₂.Admits reg P x) (h : m₂.Sends reg nested R x sendings)
    (hR : ∀ i j, R i j → j.type = i.type)
    (hstores : m₁.StoresFrom m₂ x
      ⟨(m₁.unknownTo sendings).flatMap (·.bytes) ++ (m₂.retained x).bytes⟩) :
    ∃ x₁, (m₁.decodeWith reg nested (sendings.flatMap (·.bytes)
        ++ (m₂.retained x).bytes)).result = .ok x₁ ∧ x₁.type = m₁.type ∧
      (m₁.retained x₁).bytes
        = (m₁.unknownTo sendings).flatMap (·.bytes) ++ (m₂.retained x).bytes ∧
      ∀ q ∈ m₁.plans, ∃ w, m₁.layout.get? x₁ q.path = some w ∧
        q.Shows (m₁.hand (filledAt sendings) q.path) w := by
  obtain ⟨x₁, hx₁, htype, hret, hshows⟩ := (hstores (m₁.hand (filledAt sendings))
    fun q hq p hp hn v hv ↦ by
      rw [hm₁.hand_path hq, ← hn]
      exact rel_mono (fun _ _ h ↦ h.mono hR) (h.handed_filledAt hm₂ hp hv)).exists_assemble
        hm₁.fields
  refine ⟨x₁, ?_, htype, by rw [hret], hshows⟩
  rw [decodeWith_version hm₁ hm₂ hver hx h]
  exact mapError_eq_ok.2 hx₁

/-- One level of the passage through an older version. -/
theorem passThrough_step (hm₁ : m₁.WellFormed) (hm₂ : m₂.WellFormed)
    (hres₁ : ∀ q ∈ m₁.plans, q.element.Resolved reg)
    (hres₂ : ∀ p ∈ m₂.plans, p.element.Resolved reg) (hver : m₁.VersionOf m₂)
    (hsafe : m₁.SafeDefaults reg) (hx : m₂.Admits reg P x) (hback : m₂.StoresBack x)
    (hstores : ∀ extra : Bytes, (m₂.VersionOf m₁ → extra = []) →
      m₁.StoresFrom m₂ x ⟨extra ++ (m₂.retained x).bytes⟩)
    (hR : ∀ i j, R i j → j.type = i.type)
    (hP : ∀ p ∈ m₂.plans, ∀ t i, p.element = .message t → P t i →
      Trips reg reg.write nested R t i)
    (hPR : ∀ q ∈ m₁.plans, ∀ t i j, q.element = .message t → P t i → R i j →
      Trips reg reg.write nested Eq t j) :
    reg.PassesVia nested m₁ m₂ x := by
  obtain ⟨b, hb, hsend⟩ := exists_sendings hm₂ hres₂ hx.type (hx.fits_trips hP)
  refine ⟨b ++ (m₂.retained x).bytes, by rw [Registry.write_eq, hb], fun hl ↦ ?_⟩
  rw [List.length_append] at hl
  obtain ⟨sendings, rfl, h⟩ := hsend (by omega)
  -- The newer version reads its own bytes.
  obtain ⟨y, hy, hytype, -⟩ := (hback _ fun p hp v hv ↦ rel_mono (fun _ _ h ↦ h.mono hR)
    (h.handed_hand hm₂ p hp v hv)).exists_assemble hm₂.fields
  have hread₂ : (m₂.decodeWith reg nested (sendings.flatMap (·.bytes)
      ++ (m₂.retained x).bytes)).result = .ok y := by
    rw [decodeWith_self hm₂ hx h, hy, mapError_ok]
  -- The older version reads them and retains the fields that it does not know.
  have hextra : m₂.VersionOf m₁ → (m₁.unknownTo sendings).flatMap (·.bytes) = [] := by
    intro hsame
    rw [MessageMarshaller.unknownTo_eq_nil hm₁ fun s hs ↦ ?_]
    · rfl
    · obtain ⟨q, hq, ha⟩ := hsame s.plan (h.mem hs)
      exact ⟨q, hq, ha.number.symm⟩
  obtain ⟨x₁, hread₁, htype₁, hret₁, hshows⟩ := exists_older hm₁ hm₂ hver hx h hR
    (hstores _ hextra)
  -- It writes what has settled, with the retained fields behind.
  have hresends := resends_of_shows hm₁ hm₂ hver hsafe hx h hPR hshows
  obtain ⟨b₁, hb₁, hsend₁⟩ := exists_sendings (x := x₁) hm₁ hres₁ htype₁ fun q hq ↦ by
    obtain ⟨p, hp, v, w, -, hw, hresent⟩ := hresends q hq
    exact ⟨w, hw, .writeBelow hw hresent.fits⟩
  refine ⟨y, x₁, hread₂, hytype, hread₁, htype₁, _, by rw [Registry.write_eq, hb₁], fun hl₁ ↦ ?_⟩
  rw [List.length_append] at hl₁
  obtain ⟨sendings₁, rfl, h₁⟩ := hsend₁ (by omega)
  rw [hret₁, ← List.append_assoc, ← List.flatMap_append,
    decodeWith_passed hm₁ hm₂ hx h h₁ hresends, hread₂]

end

/-! ## All levels

To pass through an older version is asked of instances of one type at the top and of two equal types
below, so the induction on the levels has to carry that types settle together with the passage
itself. -/

/-- The second type is the first one, or instances of it nest in those of the first one. -/
inductive Registry.Reaches (reg : Registry) : MessageMarshaller → MessageMarshaller → Prop
  | refl (m : MessageMarshaller) : Reaches reg m m
  | nested {m inner m' : MessageMarshaller} {p : Plan} {target : TypeId} (hp : p ∈ m.plans)
      (ht : p.element = .message target) (hinner : reg.messageMarshaller? target = some inner)
      (h : Reaches reg inner m') : Reaches reg m m'

/-- The type and all types that nest in it have safe defaults. -/
def Registry.SafeFrom (reg : Registry) (m : MessageMarshaller) : Prop :=
  ∀ m', reg.Reaches m m' → m'.SafeDefaults reg

/-- The registered type has safe defaults, with all types that nest in it. -/
def Registry.SafeType (reg : Registry) (t : TypeId) : Prop :=
  ∀ m, reg.messageMarshaller? t = some m → reg.SafeFrom m

theorem Registry.SafeFrom.target {reg : Registry} {m : MessageMarshaller} (h : reg.SafeFrom m)
    {p : Plan} (hp : p ∈ m.plans) {t : TypeId} (ht : p.element = .message t) : reg.SafeType t :=
  fun _ hinner m' hm' ↦ h m' (.nested hp ht hinner hm')

/-- An instance that was read back is of the same type, and if that type is safe, it is read back as
itself when it is written again. -/
def Registry.Settles (reg : Registry) (nested : NestedReader) (i j : Instance) : Prop :=
  j.type = i.type ∧ (reg.SafeType i.type → Trips reg reg.write nested Eq i.type j)

theorem Registry.Closed.settles {reg : Registry} (hreg : reg.Closed) {levels : Nat} {t : TypeId}
    {inner : MessageMarshaller} {i : Instance} (hinner : reg.messageMarshaller? t = some inner)
    (hi : reg.WellTyped levels inner i)
    (hpass : reg.SafeFrom inner → reg.PassesVia (reg.nestedAt levels) inner inner i) :
    ∃ b, reg.write inner i = .ok b ∧ (b.length < UInt64.size →
      ∃ j, (reg.decodeAt levels inner b).result = .ok j ∧
        reg.Settles (reg.nestedAt (levels + 1)) i j) := by
  obtain ⟨b, hb, hread⟩ := hreg.roundTrip levels hinner hi
  refine ⟨b, hb, fun hl ↦ ?_⟩
  obtain ⟨j, hj, hsame⟩ := hread hl
  refine ⟨j, hj, hsame.type.trans hi.type.symm, fun hsafe inner' hinner' ↦ ?_⟩
  rw [hi.type, hreg.type_eq hinner] at hsafe hinner'
  obtain rfl := Option.some.inj (hinner.symm.trans hinner')
  obtain ⟨b', hb', hpass⟩ := hpass (hsafe inner hinner)
  rw [hb] at hb'
  cases hb'
  rw [decodeAt_eq] at hj
  obtain ⟨y, x₁, hy, -, hx₁, -, b₁, hb₁, hpassed⟩ := hpass hl
  rw [hj] at hy hx₁
  cases hy
  cases hx₁
  refine ⟨b₁, hb₁, fun hl₁ ↦ ⟨_, rfl, _, ?_, rfl⟩⟩
  rw [decodeAt_eq, hpassed hl₁]

theorem Registry.Closed.passThrough {reg : Registry} (hreg : reg.Closed) (levels : Nat)
    {t₁ t₂ : TypeId} {m₁ m₂ : MessageMarshaller} {x : Instance}
    (hm₁ : reg.messageMarshaller? t₁ = some m₁) (hm₂ : reg.messageMarshaller? t₂ = some m₂)
    (hver : m₁.VersionOf m₂) (hsafe : reg.SafeFrom m₁) (hx : reg.WellTyped levels m₂ x)
    (hstores : ∀ extra : Bytes, (m₂.VersionOf m₁ → extra = []) →
      m₁.StoresFrom m₂ x ⟨extra ++ (m₂.retained x).bytes⟩) :
    reg.PassesVia (reg.nestedAt levels) m₁ m₂ x := by
  have hwf₁ := hreg.wellFormed t₁ m₁ hm₁
  have hwf₂ := hreg.wellFormed t₂ m₂ hm₂
  have hres₁ := hreg.resolved t₁ m₁ hm₁
  have hres₂ := hreg.resolved t₂ m₂ hm₂
  have hback := hx.storesBack
  induction levels generalizing t₁ t₂ m₁ m₂ x with
  | zero =>
    rw [Registry.WellTyped] at hx
    exact passThrough_step hwf₁ hwf₂ hres₁ hres₂ hver (hsafe m₁ (.refl m₁)) hx.1 hback hstores
      (fun _ _ h ↦ (h : False).elim) (fun _ _ _ _ _ h ↦ h.elim) fun _ _ _ _ _ _ h ↦ h.elim
  | succ levels ih =>
    rw [Registry.WellTyped] at hx
    refine passThrough_step (R := reg.Settles (reg.nestedAt (levels + 1))) hwf₁ hwf₂ hres₁ hres₂
      hver (hsafe m₁ (.refl m₁)) hx.1 hback hstores (fun _ _ h ↦ h.1) ?_ ?_
    · intro p hp t i ht h inner hinner
      have hi := h inner hinner
      have hwf := hreg.wellFormed t inner hinner
      have hres := hreg.resolved t inner hinner
      -- A type is a version of itself, and stores what it is handed for its own instances.
      obtain ⟨b, hb, hread⟩ := hreg.settles hinner hi fun hsafe ↦ ih hinner hinner (.refl inner)
        hsafe hi (fun extra hextra hand hhand ↦ by
          rw [hextra (.refl inner)]
          exact hi.storesBack hand fun p hp v hv ↦ hhand p hp p hp rfl v hv)
        hwf hwf hres hres hi.storesBack
      exact ⟨b, hb, fun hl ↦ ⟨_, rfl, hread hl⟩⟩
    · intro q hq t i j ht h hij
      have hres := hres₁ q hq
      rw [ht] at hres
      obtain ⟨inner, hinner⟩ := hres
      have hi : i.type = t := (h inner hinner).type.trans (hreg.type_eq hinner)
      rw [← hi]
      exact hij.2 (hi ▸ hsafe.target hq ht)

/-- The instance of `t₂` is written and read as one of `t₁`, that one is written, too, and what `t₂`
reads of either bytes is the same instance. -/
def Registry.PassesThrough (reg : Registry) (t₁ t₂ : TypeId) (x : Instance) : Prop :=
  ∃ b, reg.encode x = .ok b ∧ (b.length < UInt64.size → ∃ x₁, (reg.decode t₁ b).result = .ok x₁ ∧
    ∃ b₁, reg.encode x₁ = .ok b₁ ∧ (b₁.length < UInt64.size →
      ∃ y, (reg.decode t₂ b).result = .ok y ∧ (reg.decode t₂ b₁).result = .ok y))

/-- **Passing through an older version.** A well-typed instance of a compiled message type loses
nothing when it is read and written by an older version of the type that has safe defaults. -/
theorem Registry.Compiled.passesThrough {reg : Registry} (hreg : reg.Compiled) {t₁ t₂ : TypeId}
    {m₁ m₂ : MessageMarshaller} {x : Instance} (hm₁ : reg.messageMarshaller? t₁ = some m₁)
    (hm₂ : reg.messageMarshaller? t₂ = some m₂) (hver : m₁.VersionOf m₂) (hsafe : reg.SafeFrom m₁)
    (hx : reg.WellTyped nestingLimit m₂ x) (hstores : ∀ unknown, m₁.StoresFrom m₂ x unknown) :
    reg.PassesThrough t₁ t₂ x := by
  have ht₁ := hreg.closed.type_eq hm₁
  have ht₂ := hreg.closed.type_eq hm₂
  obtain ⟨b, hb, hread⟩ := hreg.closed.passThrough nestingLimit hm₁ hm₂ hver hsafe hx
    fun extra _ ↦ hstores _
  simp only [← Registry.decodeAt_eq] at hread
  refine ⟨b, by rw [encode, hx.type, ht₂, hm₂]; exact hb, fun hl ↦ ?_⟩
  obtain ⟨y, x₁, hy, hytype, hx₁, htype₁, b₁, hb₁, hpassed⟩ := hread hl
  refine ⟨x₁, (decode_eq_ok hm₁).2 ⟨hx₁, htype₁.trans ht₁⟩, b₁,
    by rw [encode, htype₁, ht₁, hm₁]; exact hb₁, fun hl₁ ↦ ⟨y, ?_, ?_⟩⟩
  · exact (decode_eq_ok hm₂).2 ⟨hy, hytype.trans ht₂⟩
  · exact (decode_eq_ok hm₂).2 ⟨hpassed hl₁, hytype.trans ht₂⟩

/-- The account passes through the first version of accounts, which knows neither owner nor
codes. -/
theorem Bank.passesThrough_sample : ∃ m₁ m₂, registry.messageMarshaller? firstAccount = some m₁ ∧
    registry.messageMarshaller? account = some m₂ ∧ m₁.VersionOf m₂ ∧ registry.SafeFrom m₁ ∧
      registry.WellTyped nestingLimit m₂ sample ∧
        (∀ unknown, m₁.StoresFrom m₂ sample unknown) ∧
          registry.PassesThrough firstAccount account sample := by
  obtain ⟨m₁, hm₁, htype₁, hplans₁, hlayout₁⟩ := exists_firstAccount
  obtain ⟨m₂, hm₂, htype₂, hplans₂, hlayout₂⟩ := exists_account
  have hver : m₁.VersionOf m₂ := by
    intro q hq
    rw [hplans₁] at hq
    refine ⟨q, ?_, .refl q⟩
    rw [hplans₂]
    exact List.mem_append_left [ownerPlan, codesPlan] hq
  have hscalar : ∀ q ∈ m₁.plans, ∃ kind, q.element = .scalar kind := by
    rw [hplans₁]
    simp only [List.forall_mem_cons, List.not_mem_nil, false_implies, implies_true, and_true]
    exact ⟨⟨.string, rfl⟩, ⟨.bool, rfl⟩⟩
  have hsafe : registry.SafeFrom m₁ := by
    intro m' hm'
    cases hm' with
    | refl =>
      refine ⟨?_, fun q hq target n e he ↦ ?_⟩
      · rw [hplans₁]
        decide
      · obtain ⟨kind, hkind⟩ := hscalar q hq
        cases hkind.symm.trans he
    | nested hq ht =>
      obtain ⟨kind, hkind⟩ := hscalar _ hq
      cases hkind.symm.trans ht
  have hstores : ∀ unknown, m₁.StoresFrom m₂ sample unknown := by
    refine MessageMarshaller.storesFrom_of_storing (htype₁ ▸ hlayout₁) ?_
    rw [hplans₁, hplans₂, hlayout₂]
    simp only [List.forall_mem_cons, List.not_mem_nil, false_implies, implies_true, and_true]
    exact ⟨⟨namePlan, .head _, rfl, _, get?_sample (by decide), fun h ↦ by cases h⟩,
      ⟨activePlan, .tail _ (.head _), rfl, _, get?_sample (by decide), fun _ ↦ rfl⟩⟩
  exact ⟨m₁, m₂, hm₁, hm₂, hver, hsafe, wellTyped_sample hm₂, hstores,
    compiled_registry.passesThrough hm₁ hm₂ hver hsafe (wellTyped_sample hm₂) hstores⟩

/-! ## A default that is not read back

The older version fills in a default that its enum does not declare. It writes that default as any
other number, and reading it back is where it is lost. -/

namespace Dial

def level : TypeId := ⟨"dial::Level"⟩

def dial : TypeId := ⟨"dial::Dial"⟩

def firstDial : TypeId := ⟨"dial::FirstDial"⟩

/-- The description of a closed enum. -/
def levelInfo (values : List Variant) : TypeInfo where
  type := level
  path := level.name
  kind := .enum values

/-- A dial with a level, whose default is declared by the second description of levels only. -/
def dialInfo (type : TypeId) : TypeInfo :=
  .storing type
    [({ name := "level", kind := .field (.optional (.enum ⟨level, .described 1⟩ false))
        getter := ·, number := some 1, default := some (.text "TOP") })]

/-- Levels are described twice. -/
def environment : Environment :=
  [levelInfo [{ name := "Low", number := 1 }, { name := "High", number := 2 }],
    levelInfo [{ name := "Low", number := 1 }, { name := "High", number := 2 },
      { name := "Top", number := 3 }],
    dialInfo firstDial, dialInfo dial]

/-- The registry that holds the first description of levels. -/
def registry : Registry :=
  CompilationUnit.registry
    { fileName := "dial.proto", requested := [.of level, .of firstDial, .of dial] } environment

def levelPlan : Plan where
  field :=
    ⟨1, "level", .varint, .optional, .enum "Level", none, some (.enum "TOP" 3), true, false, none,
      none⟩
  element := .enum level false
  path := [0]

theorem exists_firstDial :
    ∃ m, registry.messageMarshaller? firstDial = some m ∧ m.type = firstDial ∧
      m.plans = [levelPlan] ∧ m.layout = .storing firstDial ["level"] := by
  refine CompilationUnit.exists_marshaller (dialInfo firstDial) (by decide +kernel)
    (.tail _ (.tail _ (.head _))) (by decide +kernel) ?_
  rintro message ⟨⟩
  cbv

theorem exists_dial :
    ∃ m, registry.messageMarshaller? dial = some m ∧ m.type = dial ∧ m.plans = [levelPlan] ∧
      m.layout = .storing dial ["level"] := by
  refine CompilationUnit.exists_marshaller (dialInfo dial) (by decide +kernel)
    (.tail _ (.tail _ (.tail _ (.head _)))) (by decide +kernel) ?_
  rintro message ⟨⟩
  cbv

/-- A dial without a level. -/
def unset : Instance := .record dial [some .absent] [] .empty

theorem get?_unset : (Layout.storing dial ["level"]).get? unset [0] = some .absent :=
  Layout.get?_storing (by decide)

theorem wellTyped_unset {levels : Nat} {m : MessageMarshaller}
    (hm : registry.messageMarshaller? dial = some m) :
    registry.WellTyped (levels + 1) m unset := by
  obtain ⟨m', hm', htype, hplans, hlayout⟩ := exists_dial
  obtain rfl := Option.some.inj (hm.symm.trans hm')
  refine ⟨⟨htype.symm, ?_, ?_, [], ?_, fun r hr ↦ by cases hr⟩, ?_⟩
  · rw [hplans, hlayout, List.forall_mem_singleton]
    exact ⟨_, get?_unset, .inl ⟨rfl, rfl⟩⟩
  · intro p hp q hq g v w hg
    rw [hplans, List.mem_singleton] at hp
    cases (hp ▸ hg : levelPlan.field.oneof = some g)
  · rw [unset, ← htype, MessageMarshaller.retained_storing (htype ▸ hlayout)]
    exact .nil
  · refine MessageMarshaller.storesBack_of_storing (htype ▸ hlayout) ?_
    rw [hplans, hlayout, List.forall_mem_singleton]
    exact ⟨_, get?_unset, fun _ ↦ rfl⟩

end Dial

/-- The older version writes the default that it reads, and the newer one retains the number instead
of reading it. -/
theorem Dial.not_passesThrough : registry.Compiled ∧
    ∃ m₁ m₂, registry.messageMarshaller? firstDial = some m₁ ∧
      registry.messageMarshaller? dial = some m₂ ∧ m₁.VersionOf m₂ ∧
        (∀ p ∈ m₁.plans ++ m₂.plans, p.field.oneof = none) ∧
          registry.WellTyped nestingLimit m₂ unset ∧
            (∀ unknown, m₁.StoresFrom m₂ unset unknown) ∧
              ¬ registry.PassesThrough firstDial dial unset := by
  obtain ⟨m₁, hm₁, htype₁, hplans₁, hlayout₁⟩ := exists_firstDial
  obtain ⟨m₂, hm₂, htype₂, hplans₂, hlayout₂⟩ := exists_dial
  refine ⟨CompilationUnit.compiled_registry _ _, m₁, m₂, hm₁, hm₂, ?_, ?_, wellTyped_unset hm₂,
    ?_, ?_⟩
  · rw [MessageMarshaller.VersionOf, hplans₁, hplans₂]
    exact fun q hq ↦ ⟨q, hq, .refl q⟩
  · rw [hplans₁, hplans₂]
    decide
  · refine MessageMarshaller.storesFrom_of_storing (htype₁ ▸ hlayout₁) ?_
    rw [hplans₁, hplans₂, hlayout₂, List.forall_mem_singleton]
    exact ⟨levelPlan, .head _, rfl, _, get?_unset, fun _ ↦ rfl⟩
  · rintro ⟨b, hb, h⟩
    have hnil : (registry.encode unset).toOption = some [] := by decide +kernel
    obtain rfl := Except.ok.inj (hb.symm.trans (toOption_eq_some.1 hnil))
    obtain ⟨x₁, hx₁, b₁, hb₁, h⟩ := h (by decide)
    have htop : ((registry.decode firstDial []).result.toOption.bind fun i ↦
        (registry.encode i).toOption) = some [0x08, 0x03] := by
      decide +kernel
    rw [hx₁] at htop
    obtain rfl := Except.ok.inj (hb₁.symm.trans (toOption_eq_some.1 htop))
    obtain ⟨y, hy, hy'⟩ := h (by decide)
    have hretained : ∀ bytes, bytes ∈ [[], [0x08, 0x03]] →
        ((registry.decode dial bytes).result.toOption.bind fun i ↦
          (unknownOfRecord dial i).map (·.bytes)) = some bytes := by
      decide +kernel
    have h₁ := hretained _ (.head _)
    have h₂ := hretained _ (.tail _ (.head _))
    rw [hy] at h₁
    rw [hy'] at h₂
    cases h₁.symm.trans h₂

end ProtoSchema
