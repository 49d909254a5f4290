import ProtoSchema.Proofs.Codec.Storing
import ProtoSchema.Proofs.Compilation.Compiled
import ProtoSchema.Proofs.Compilation.Exact

/-!
# Units that do not expand

A unit that does not expand generates the types it requests and no others. What these refer to has
to be there without: requested as well, or registered so that it can be imported. A type that the
unit's own file registered is not imported but generated again, so it has to be requested again, or
else the reference is left unresolved. This is all that can go wrong while references are followed,
because nothing is added to what is pending.

Where it does not go wrong, expanding would have done the same.
-/

set_option autoImplicit false

namespace ProtoSchema

/-- A type that the walk is to generate refers to the type. -/
def Walk.RefersTo (w : Walk) (env : Environment) (t : TypeId) : Prop :=
  ∃ n ∈ w.nodes, n.decision = .generate ∧
    ∃ info ref, n.ref.info? env = some info ∧ info.Refers env ref ∧ ref.type = t

namespace WalkContext

variable {c : WalkContext} {requested refs : List TypeRef} {w w' : Walk} {ref : TypeRef}
  {referrer : String}

/-- A type is there for a unit that does not expand: it is requested, or it is registered under no
file or a file other than the unit's. -/
def Available (c : WalkContext) (requested : List TypeRef) (t : TypeId) : Prop :=
  (∃ r ∈ requested, r.type = t) ∨ ∃ e, c.registry.get? t = some e ∧ e.file ≠ some c.fileName

theorem not_available_iff {t : TypeId} (hagain : ∀ e, c.registry.get? t = some e →
      e.file = some c.fileName → ∃ q ∈ requested, q.type = t) :
    ¬c.Available requested t ↔
      (∀ q ∈ requested, q.type ≠ t) ∧ c.registry.contains t = false := by
  rw [Available, not_or, not_exists]
  constructor
  · rintro ⟨hrequested, hregistered⟩
    have hnone : ∀ q ∈ requested, q.type ≠ t := fun q hq ht ↦ hrequested q ⟨hq, ht⟩
    refine ⟨hnone, Option.isSome_eq_false_iff.2 (Option.isNone_iff_eq_none.2 ?_)⟩
    refine Option.eq_none_iff_forall_ne_some.2 fun e he ↦ hregistered ⟨e, he, fun hfile ↦ ?_⟩
    obtain ⟨q, hq, ht⟩ := hagain e he hfile
    exact hnone q hq ht
  · rintro ⟨hnone, hcontains⟩
    refine ⟨fun q hq ↦ hnone q hq.1 hq.2, ?_⟩
    rintro ⟨e, he, -⟩
    rw [Registry.contains, he] at hcontains
    cases hcontains

/-- The requested types are reached, and nothing but what is available. -/
structure Settled (c : WalkContext) (requested : List TypeRef) (w : Walk) : Prop where
  reached : ∀ r ∈ requested, w.reaches r.type = true
  available : ∀ t, w.reaches t = true → c.Available requested t

theorem settled_of_request (h : (requested.foldlM c.request {}).result = .ok w) :
    c.Settled requested w := by
  have heach := reachedEach_of_request h
  refine ⟨heach.reaches, ?_⟩
  refine heach.induction (I := fun w ↦ ∀ t, w.reaches t = true → c.Available requested t) ?_ ?_
  · intro r hr w w' hw hreached t ht
    rcases (hreached.reaches_iff t).1 ht with ht | rfl
    · exact hw t ht
    · exact .inl ⟨r, hr, rfl⟩
  · intro t ht
    cases ht

/-! ## Following references

The pending types are those that were requested, from the first to the last. Each of their
references is to something that is available, or is the first one that is left unresolved. -/

theorem reach_of_available (hw : c.Settled requested w) (h : c.Available requested ref.type) :
    ∃ w', (c.reach referrer w ref).result = .ok w' ∧ c.Settled requested w' ∧
      w'.pending = w.pending := by
  by_cases hr : w.reaches ref.type = true
  · refine ⟨w, ?_, hw, rfl⟩
    rw [reach, if_pos hr]
    rfl
  · have himportable : ∃ e, c.importable? ref.type = some e := by
      rcases h with ⟨r, hmem, ht⟩ | ⟨e, he⟩
      · exact absurd (ht ▸ hw.reached r hmem) hr
      · exact ⟨e, importable?_eq_some.2 he⟩
    obtain ⟨e, he⟩ := himportable
    have hreached := Reached.imported hr he
    refine ⟨{ w with nodes := w.nodes ++ [⟨ref, e.name, e.descriptor.sort, .imported e⟩] }, ?_,
      ⟨fun r hmem ↦ ?_, fun t ht ↦ ?_⟩, rfl⟩
    · rw [reach, if_neg hr, he]
      rfl
    · exact (hreached.reaches_iff r.type).2 (.inl (hw.reached r hmem))
    · rcases (hreached.reaches_iff t).1 ht with ht | rfl
      · exact hw.available t ht
      · exact .inr ⟨e, importable?_eq_some.1 he⟩

section

variable (hclosed : c.autoExpand = false)
include hclosed

theorem reach_of_not_available (hw : c.Settled requested w) (h : ¬c.Available requested ref.type) :
    (c.reach referrer w ref).result =
      .error (.reference (.unresolved referrer (ref.path c.env))) := by
  have hr : ¬w.reaches ref.type = true := fun hr ↦ h (hw.available _ hr)
  have himportable : c.importable? ref.type = none := by
    cases he : c.importable? ref.type with
    | none => rfl
    | some e => exact absurd (.inr ⟨e, importable?_eq_some.1 he⟩) h
  rw [reach, if_neg hr, himportable, hclosed]
  rfl

/-- References can be followed exactly if all of them are to what is available. -/
theorem foldlM_reach_cases (refs : List TypeRef) (referrer : String)
    (hw : c.Settled requested w) :
    (∃ w', (refs.foldlM (c.reach referrer) w).result = .ok w' ∧ c.Settled requested w' ∧
        w'.pending = w.pending ∧ ∀ ref ∈ refs, c.Available requested ref.type) ∨
      (∃ referenced, (refs.foldlM (c.reach referrer) w).result =
        .error (.reference (.unresolved referrer referenced))) ∧
      ∃ ref ∈ refs, ¬c.Available requested ref.type := by
  induction refs generalizing w with
  | nil => exact .inl ⟨w, rfl, hw, rfl, fun ref href ↦ absurd href List.not_mem_nil⟩
  | cons ref rest ih =>
    rw [List.foldlM_cons, Logged.result_bind]
    by_cases havailable : c.Available requested ref.type
    · obtain ⟨w₁, hreach, hw₁, hpending⟩ :=
        reach_of_available hw havailable
      rw [hreach, ok_bind]
      rcases ih hw₁ with ⟨w', hrest, hw', hpending', hall⟩ | ⟨herror, ref', href', hnot⟩
      · exact .inl ⟨w', hrest, hw', hpending'.trans hpending,
          List.forall_mem_cons.2 ⟨havailable, hall⟩⟩
      · exact .inr ⟨herror, ref', List.mem_cons_of_mem ref href', hnot⟩
    · rw [reach_of_not_available hclosed hw havailable]
      exact .inr ⟨⟨_, rfl⟩, ref, List.mem_cons_self, havailable⟩

/-- Following comes to an unresolved reference exactly if a pending type has one. -/
theorem Follows.unresolved_iff {result : Except CompileError Walk} (h : c.Follows w result)
    (hw : c.Settled requested w) :
    (∃ referrer referenced, result = .error (.reference (.unresolved referrer referenced))) ↔
      ∃ info ∈ w.pending, ∃ ref ∈ info.references c.env, ¬c.Available requested ref.type := by
  induction h with
  | done h =>
    rw [h]
    simp
  | @failed w info pending e h hreach =>
    have hpopped : c.Settled requested { w with pending } := ⟨hw.reached, hw.available⟩
    rcases foldlM_reach_cases hclosed (info.references c.env) info.path hpopped with
      ⟨w', hok, -⟩ | ⟨⟨referenced, herror⟩, hnot⟩
    · rw [hreach] at hok
      cases hok
    · rw [hreach] at herror
      refine iff_of_true ⟨info.path, referenced, ?_⟩ ⟨info, ?_, hnot⟩
      · rw [Except.error.inj herror]
      · rw [h]
        exact List.mem_cons_self
  | @next w w' info pending result h hreach _ ih =>
    have hpopped : c.Settled requested { w with pending } := ⟨hw.reached, hw.available⟩
    rcases foldlM_reach_cases hclosed (info.references c.env) info.path hpopped with
      ⟨w₁, hok, hw₁, hpending, hall⟩ | ⟨⟨referenced, herror⟩, -⟩
    · rw [hreach] at hok
      obtain rfl := Except.ok.inj hok
      rw [ih hw₁, hpending, h, List.exists_mem_cons_iff]
      constructor
      · exact .inr
      · rintro (⟨ref, href, hnot⟩ | hrest)
        · exact absurd (hall ref href) hnot
        · exact hrest
    · rw [hreach] at herror
      cases herror

/-- **When a walk leaves a reference unresolved.** -/
theorem closure_unresolved_iff (hw : (requested.foldlM c.request {}).result = .ok w) :
    (∃ referrer referenced, (c.closure requested).result =
        .error (.reference (.unresolved referrer referenced))) ↔
      ∃ t, w.RefersTo c.env t ∧ ¬c.Available requested t := by
  have hsettled := settled_of_request hw
  have htraced := traced_of_request hw
  have hfollow : (∃ referrer referenced, (c.closure requested).result =
        .error (.reference (.unresolved referrer referenced))) ↔
      ∃ referrer referenced, (c.follow c.maxFollowed w).result =
        .error (.reference (.unresolved referrer referenced)) := by
    rw [closure, Logged.result_bind, hw, ok_bind, Logged.result_bind]
    cases (c.follow c.maxFollowed w).result with
    | error e => simp
    | ok w' =>
      -- What may go wrong behind the walk are names.
      rw [ok_bind, Logged.result_bind, Logged.result_ofExcept]
      cases c.checkNames [] w'.nodes <;> simp
  rw [hfollow, (follows_of_request hw).unresolved_iff hclosed hsettled]
  constructor
  · rintro ⟨info, hinfo, ref, href, hnot⟩
    obtain ⟨n, hn, hd, hdescribed⟩ := htraced.pending info hinfo
    exact ⟨_, ⟨n, hn, hd, info, ref, hdescribed, TypeInfo.mem_references.1 href, rfl⟩, hnot⟩
  · rintro ⟨_, ⟨n, hn, hd, info, ref, hdescribed, href, rfl⟩, hnot⟩
    rcases htraced.followed n hn hd info hdescribed with hinfo | hreached
    · exact ⟨info, hinfo, ref, TypeInfo.mem_references.2 href, hnot⟩
    · exact absurd (hsettled.available _ (hreached ref href)) hnot

end

/-! ## Expanding

A reference to what is available adds nothing to what is pending, whether the walk may expand or
not. -/

/-- The walk that expands. -/
def expanding (c : WalkContext) : WalkContext := { c with autoExpand := true }

theorem reach_expanding (h : (c.reach referrer w ref).result = .ok w') :
    (c.expanding.reach referrer w ref).result = .ok w' := by
  unfold reach at h ⊢
  split at h
  · next hr =>
    rw [if_pos hr]
    exact h
  · next hr =>
    rw [if_neg hr]
    have himportable : c.expanding.importable? ref.type = c.importable? ref.type := rfl
    rw [himportable]
    split at h
    · exact h
    · split at h
      · cases h
      · exact h

theorem foldlM_reach_expanding (h : (refs.foldlM (c.reach referrer) w).result = .ok w') :
    (refs.foldlM (c.expanding.reach referrer) w).result = .ok w' := by
  induction refs generalizing w with
  | nil => exact h
  | cons ref rest ih =>
    rw [List.foldlM_cons] at h ⊢
    obtain ⟨w₁, hreach, h⟩ := Logged.bind_eq_ok.1 h
    exact Logged.bind_eq_ok.2 ⟨w₁, reach_expanding hreach, ih h⟩

theorem follow_expanding {fuel : Nat} (h : (c.follow fuel w).result = .ok w') :
    (c.expanding.follow fuel w).result = .ok w' := by
  induction fuel generalizing w with
  | zero => exact h
  | succ fuel ih =>
    rw [follow] at h ⊢
    split at h
    · exact h
    · next info pending _ =>
      obtain ⟨w₁, hfold, h⟩ := Logged.bind_eq_ok.1 h
      exact Logged.bind_eq_ok.2 ⟨w₁, foldlM_reach_expanding hfold, ih h⟩

/-- A walk that succeeds comes to the same closure if it may expand. -/
theorem closure_expanding {nodes : List Node} (h : (c.closure requested).result = .ok nodes) :
    (c.expanding.closure requested).result = .ok nodes := by
  obtain ⟨w, w', hw, hw', hfit, rfl⟩ := closure_eq_ok.1 h
  exact closure_eq_ok.2
    ⟨w, w', hw, follow_expanding hw', ⟨hfit.fresh, hfit.distinct, hfit.own⟩, rfl⟩

end WalkContext

/-- **Units that do not expand.** Their walk leaves a reference unresolved exactly if a type that
they generate refers to one that is not available. As long as they request again what their own
file has registered of the types that are referred to, that is one which is neither requested nor
registered. What they prepare is what they would prepare if they expanded. -/
theorem CompilationUnit.unexpanded (u : CompilationUnit) (env : Environment) (r : Registry)
    (hclosed : u.autoExpand = false) {w : Walk}
    (hw : (u.requested.foldlM (u.context env r).request {}).result = .ok w) :
    ((∃ referrer referenced, ((u.context env r).closure u.requested).result =
        .error (.reference (.unresolved referrer referenced))) ↔
      ∃ t, w.RefersTo env t ∧ ¬(u.context env r).Available u.requested t) ∧
    ((∀ t e, w.RefersTo env t → r.get? t = some e → e.file = some u.fileName →
        ∃ q ∈ u.requested, q.type = t) →
      ((∃ referrer referenced, ((u.context env r).closure u.requested).result =
          .error (.reference (.unresolved referrer referenced))) ↔
        ∃ t, w.RefersTo env t ∧ (∀ q ∈ u.requested, q.type ≠ t) ∧ r.contains t = false)) ∧
    ∀ occasion p, (u.prepare env r occasion).result = .ok p →
      ({ u with autoExpand := true }.prepare env r occasion).result = .ok p := by
  have hunresolved := WalkContext.closure_unresolved_iff hclosed hw
  refine ⟨hunresolved, fun hagain ↦ hunresolved.trans ?_, fun occasion p h ↦ ?_⟩
  · exact exists_congr fun t ↦ and_congr_right fun ht ↦
      WalkContext.not_available_iff fun e ↦ hagain t e ht
  · obtain ⟨hcheck, nodes, generated, hclosure, hgenerated, rfl⟩ := prepare_iff.1 h
    exact prepare_iff.2 ⟨hcheck, nodes, generated, WalkContext.closure_expanding hclosure,
      hgenerated, rfl⟩

namespace Street

def colour : TypeId := ⟨"street::Colour"⟩

def house : TypeId := ⟨"street::House"⟩

/-- An enum, and a message that refers to it. -/
def environment : Environment :=
  [{ type := colour, path := colour.name, kind := .enum [{ name := "Red", number := 0 }] },
    .storing house
      [({ name := "colour", kind := .field (.optional (.enum (.of colour) true)), getter := ·
          number := some 1 })]]

/-- The registry after a file with a type and what it refers to. -/
def after (fileName : String) (type : TypeId) : Option Registry :=
  (({ fileName, requested := [.of type] } : CompilationUnit).compile
    environment .empty 0).result.toOption.map (·.2)

def unit : CompilationUnit :=
  { fileName := "street.proto", requested := [.of house], autoExpand := false }

def walk (r : Registry) : Except CompileError Walk :=
  (unit.requested.foldlM (unit.context environment r).request {}).result

end Street

/-- The house alone can be compiled when another file has the colour, since nothing that it refers
to is missing. -/
theorem Street.unexpanded_imported : ∃ r w p, after "colour.proto" colour = some r ∧
    walk r = .ok w ∧ (unit.prepare environment r 1).result = .ok p ∧
    p.file.imports = ["colour.proto"] ∧
    (∀ t, w.RefersTo environment t →
      (unit.context environment r).Available unit.requested t) ∧
    (¬∃ t, w.RefersTo environment t ∧ (∀ q ∈ unit.requested, q.type ≠ t) ∧
      r.contains t = false) ∧
    ({ unit with autoExpand := true }.prepare environment r 1).result = .ok p := by
  have hcompiles : ((after "colour.proto" colour).bind fun r ↦ (walk r).toOption.map fun _ ↦
      (unit.prepare environment r 1).result.toOption.map fun p ↦ p.file.imports) =
        some (some ["colour.proto"]) := by
    decide +kernel
  obtain ⟨r, hr, hcompiles⟩ := Option.bind_eq_some_iff.1 hcompiles
  obtain ⟨w, hw, hprepares⟩ := Option.map_eq_some_iff.1 hcompiles
  obtain ⟨p, hp, himports⟩ := Option.map_eq_some_iff.1 hprepares
  have hw := toOption_eq_some.1 hw
  have hp := toOption_eq_some.1 hp
  obtain ⟨hunresolved, hregistered, hexpanding⟩ :=
    CompilationUnit.unexpanded unit environment r rfl hw
  have hresolved : ¬∃ referrer referenced, ((unit.context environment r).closure
      unit.requested).result = .error (.reference (.unresolved referrer referenced)) := by
    rintro ⟨referrer, referenced, herror⟩
    obtain ⟨-, nodes, generated, hclosure, -⟩ := CompilationUnit.prepare_iff.1 hp
    rw [herror] at hclosure
    cases hclosure
  have havailable : ∀ t, w.RefersTo environment t →
      (unit.context environment r).Available unit.requested t := by
    intro t ht
    by_contra hnot
    exact hresolved (hunresolved.2 ⟨t, ht, hnot⟩)
  refine ⟨r, w, p, hr, hw, hp, himports, havailable, ?_, hexpanding 1 p hp⟩
  rw [← hregistered fun t e ht he hfile ↦ ?_]
  · exact hresolved
  · rcases havailable t ht with hrequested | ⟨e', he', hother⟩
    · exact hrequested
    · obtain rfl := Option.some.inj (he.symm.trans he')
      exact absurd hfile hother

/-- It cannot when its own file has the colour, though all that it refers to is registered. -/
theorem Street.not_unresolved_iff : ∃ r w, after "street.proto" house = some r ∧
    walk r = .ok w ∧
    ((unit.context environment r).closure unit.requested).result =
      .error (.reference (.unresolved "street::House" "street::Colour")) ∧
    ∀ t, w.RefersTo environment t → r.contains t = true := by
  have hcompiles : ((after "street.proto" house).bind fun r ↦ (walk r).toOption.map fun w ↦
      (((unit.context environment r).closure unit.requested).result.map fun _ ↦ (),
        w.nodes.map (·.ref), r.contains colour)) =
      some (.error (.reference (.unresolved "street::House" "street::Colour")), [.of house],
        true) := by
    decide +kernel
  have hreferences : ((TypeRef.of house).info? environment).map (·.references environment) =
      some [.of colour] := by
    decide +kernel
  obtain ⟨r, hr, hcompiles⟩ := Option.bind_eq_some_iff.1 hcompiles
  obtain ⟨w, hw, hall⟩ := Option.map_eq_some_iff.1 hcompiles
  obtain ⟨herror, hall⟩ := Prod.mk.inj hall
  obtain ⟨hnodes, hcolour⟩ := Prod.mk.inj hall
  refine ⟨r, w, hr, toOption_eq_some.1 hw, map_eq_error.1 herror, ?_⟩
  rintro t ⟨n, hn, -, info, ref, hinfo, href, rfl⟩
  have hhouse : n.ref = .of house := by
    have hmem : n.ref ∈ w.nodes.map (·.ref) := List.mem_map_of_mem hn
    rwa [hnodes, List.mem_singleton] at hmem
  rw [hhouse] at hinfo
  rw [hinfo, Option.map_some, Option.some.injEq] at hreferences
  have hmem := TypeInfo.mem_references.2 href
  rw [hreferences, List.mem_singleton] at hmem
  rw [hmem]
  exact hcolour

end ProtoSchema
