import Mathlib.Data.List.Nodup
import ProtoSchema.Compilation.Unit
import ProtoSchema.Proofs.Result

/-!
# What a closure holds

Every type in the closure of a compilation is there once. A generated type has a description, and an
imported one an entry in the registry; either way the sort that the closure notes for it is the one
that will be found there. Each step of the walk adds at most one type, which makes this an invariant
of the walk, no matter in which order types are reached and how far it is followed.
-/

set_option autoImplicit false

namespace ProtoSchema

open Text

/-- Whether messages or enums are described. -/
def TypeKind.sort : TypeKind → TypeSort
  | message _ => .message
  | enum _ => .enum

/-- A reached type is what the closure takes it for. -/
def Node.Sound (c : WalkContext) (n : Node) : Prop :=
  match n.decision with
  | .generate => ∃ info, n.ref.info? c.env = some info ∧ n.sort = info.kind.sort
  | .imported e => c.registry.get? n.ref.type = some e ∧ n.sort = e.descriptor.sort

/-- Every type is reached once and is what it is taken for. -/
structure Walk.Sound (c : WalkContext) (w : Walk) : Prop where
  distinct : (w.nodes.map (·.ref.type)).Nodup
  nodes : ∀ n ∈ w.nodes, n.Sound c

namespace WalkContext

/-- What the walk adds for a type: an entry to import, under the name that it bears, or else a
description of the type, under the name that the compilation gives it. -/
inductive Adds (c : WalkContext) : Node → Prop
  | imported {ref : TypeRef} {e : Entry} (he : c.importable? ref.type = some e) :
      Adds c ⟨ref, e.name, e.descriptor.sort, .imported e⟩
  | generated {ref : TypeRef} {info : TypeInfo} (hfree : c.importable? ref.type = none)
      (hinfo : ref.info? c.env = some info) :
      Adds c ⟨ref, qualify c.package info.typeName, info.kind.sort, .generate⟩

/-- What reaching a type does to a walk: nothing if the type is reached already, or else it adds the
type, as an entry to import or with the description to follow. -/
inductive Reached (c : WalkContext) (ref : TypeRef) (w : Walk) : Walk → Prop
  | already (hr : w.reaches ref.type = true) : Reached c ref w w
  | imported {e : Entry} (hr : ¬w.reaches ref.type = true)
      (he : c.importable? ref.type = some e) :
      Reached c ref w { w with nodes := w.nodes ++ [⟨ref, e.name, e.descriptor.sort, .imported e⟩] }
  | generated {ref' : TypeRef} {info : TypeInfo} (hr : ¬w.reaches ref.type = true)
      (hfree : c.importable? ref.type = none)
      (hadapter : withAdapter c.env ref = .ok (ref', info)) :
      Reached c ref w (c.addGenerated w ref' info)

/-- What reaching types one after the other does to a walk. -/
inductive ReachedEach (c : WalkContext) : List TypeRef → Walk → Walk → Prop
  | nil {w : Walk} : ReachedEach c [] w w
  | cons {ref : TypeRef} {refs : List TypeRef} {w w' w'' : Walk} (hreached : c.Reached ref w w')
      (hrest : ReachedEach c refs w' w'') : ReachedEach c (ref :: refs) w w''

/-- A step of a walk, whatever it reached: nothing changes, or one type is added that was not
reached. -/
inductive Step (c : WalkContext) (w : Walk) : Walk → Prop
  | same : Step c w w
  | add {n : Node} {pending : List TypeInfo} (hr : ¬w.reaches n.ref.type = true) (hn : c.Adds n) :
      Step c w { nodes := w.nodes ++ [n], pending }

variable {c : WalkContext} {w w' : Walk}

theorem withAdapter_eq_ok {env : Environment} {ref ref' : TypeRef} {info : TypeInfo}
    (h : withAdapter env ref = .ok (ref', info)) :
    ref'.type = ref.type ∧ ref'.info? env = some info := by
  unfold withAdapter at h
  split at h
  · next hi =>
    cases h
    exact ⟨rfl, hi⟩
  · split at h
    · next hi =>
      cases h
      exact ⟨rfl, hi⟩
    · cases h

theorem Reached.step {ref : TypeRef} (h : c.Reached ref w w') : c.Step w w' := by
  cases h with
  | already _ => exact .same
  | imported hr he => exact .add hr (.imported he)
  | @generated ref' info hr hfree hadapter =>
    obtain ⟨ht, hinfo⟩ := withAdapter_eq_ok hadapter
    have hadds := Adds.generated (ht ▸ hfree) hinfo
    rw [addGenerated]
    unfold TypeKind.sort at hadds
    exact .add (ht ▸ hr) hadds

theorem reached_of_addImport {ref : TypeRef} {e : Entry} (hr : ¬w.reaches ref.type = true)
    (he : c.importable? ref.type = some e) (h : (c.addImport w ref e).result = .ok w') :
    c.Reached ref w w' := by
  obtain ⟨_, -, h⟩ := Logged.bind_eq_ok.1 h
  cases h
  exact .imported hr he

theorem reached_of_request {ref : TypeRef} (h : (c.request w ref).result = .ok w') :
    c.Reached ref w w' := by
  unfold request at h
  split at h
  · next hr =>
    cases h
    exact .already hr
  · next hr =>
    split at h
    · next e he => exact reached_of_addImport hr he h
    · next hfree =>
      obtain ⟨⟨ref', info⟩, hadapter, h⟩ := Logged.bind_eq_ok.1 h
      cases h
      exact .generated hr hfree (mapError_eq_ok.1 hadapter)

theorem reached_of_reach {referrer : String} {ref : TypeRef}
    (h : (c.reach referrer w ref).result = .ok w') : c.Reached ref w w' := by
  unfold reach at h
  split at h
  · next hr =>
    cases h
    exact .already hr
  · next hr =>
    split at h
    · next e he => exact reached_of_addImport hr he h
    · next hfree =>
      split at h
      · cases h
      · obtain ⟨⟨ref', info⟩, hadapter, h⟩ := Logged.bind_eq_ok.1 h
        obtain ⟨_, -, h⟩ := Logged.bind_eq_ok.1 h
        cases h
        exact .generated hr hfree (mapError_eq_ok.1 hadapter)

theorem reachedEach_of_foldlM {reach : Walk → TypeRef → Logged CompileError Walk}
    (hreach : ∀ w w' ref, (reach w ref).result = .ok w' → c.Reached ref w w') {refs : List TypeRef}
    (h : (refs.foldlM reach w).result = .ok w') : c.ReachedEach refs w w' := by
  induction refs generalizing w with
  | nil =>
    cases h
    exact .nil
  | cons ref rest ih =>
    rw [List.foldlM_cons] at h
    obtain ⟨w'', hw'', h⟩ := Logged.bind_eq_ok.1 h
    exact .cons (hreach w w'' ref hw'') (ih h)

theorem reachedEach_of_request {requested : List TypeRef}
    (h : (requested.foldlM c.request w).result = .ok w') : c.ReachedEach requested w w' :=
  reachedEach_of_foldlM (fun _ _ _ ↦ reached_of_request) h

theorem reachedEach_of_reach {referrer : String} {refs : List TypeRef}
    (h : (refs.foldlM (c.reach referrer) w).result = .ok w') : c.ReachedEach refs w w' :=
  reachedEach_of_foldlM (fun _ _ _ ↦ reached_of_reach) h

/-! ## Names -/

/-- No two types bear one name, also among earlier ones, and no generated type bears the name of
another type of the registry. -/
structure NamesFit (c : WalkContext) (earlier nodes : List Node) : Prop where
  fresh : ∀ n ∈ nodes, ∀ n' ∈ earlier, n'.qualifiedName ≠ n.qualifiedName
  distinct : (nodes.map (·.qualifiedName)).Nodup
  own : ∀ n ∈ nodes, n.decision = .generate → ∀ e, c.registry.named? n.qualifiedName = some e →
    e.type = n.ref.type

theorem namesFit_cons {earlier rest : List Node} {n : Node} :
    c.NamesFit earlier (n :: rest) ↔ (∀ n' ∈ earlier, n'.qualifiedName ≠ n.qualifiedName) ∧
      (n.decision = .generate → ∀ e, c.registry.named? n.qualifiedName = some e →
        e.type = n.ref.type) ∧ c.NamesFit (n :: earlier) rest := by
  constructor
  · rintro ⟨hfresh, hdistinct, hown⟩
    rw [List.map_cons, List.nodup_cons] at hdistinct
    refine ⟨hfresh n List.mem_cons_self, hown n List.mem_cons_self, ?_, hdistinct.2,
      fun n' h' ↦ hown n' (List.mem_cons_of_mem n h')⟩
    intro n' h' n'' h'' heq
    rcases List.mem_cons.1 h'' with rfl | h''
    · exact hdistinct.1 (heq ▸ List.mem_map.2 ⟨n', h', rfl⟩)
    · exact hfresh n' (List.mem_cons_of_mem n h') n'' h'' heq
  · rintro ⟨hn, hown, hrest⟩
    refine ⟨List.forall_mem_cons.2 ⟨hn, fun n' h' n'' h'' ↦
      hrest.fresh n' h' n'' (List.mem_cons_of_mem n h'')⟩, ?_,
      List.forall_mem_cons.2 ⟨hown, hrest.own⟩⟩
    rw [List.map_cons, List.nodup_cons]
    refine ⟨fun hmem ↦ ?_, hrest.distinct⟩
    obtain ⟨n', h', heq⟩ := List.mem_map.1 hmem
    exact hrest.fresh n' h' n List.mem_cons_self heq.symm

theorem checkNames_eq_ok {earlier nodes : List Node} :
    c.checkNames earlier nodes = .ok () ↔ c.NamesFit earlier nodes := by
  induction nodes generalizing earlier with
  | nil => exact iff_of_true rfl ⟨by simp, List.nodup_nil, by simp⟩
  | cons n rest ih =>
    rw [namesFit_cons, checkNames]
    split
    · next first hfirst =>
      refine iff_of_false (by simp) fun h ↦ ?_
      have hname := List.find?_some hfirst
      exact h.1 first (List.mem_of_find?_eq_some hfirst) (eq_of_beq hname)
    · next hnone =>
      have hfresh : ∀ n' ∈ earlier, n'.qualifiedName ≠ n.qualifiedName := fun n' h' ↦
        ne_of_beq_false (by simpa using List.find?_eq_none.1 hnone n' h')
      rw [and_iff_right hfresh]
      split
      · next existing hd hexisting =>
        split
        · next ht =>
          rw [ih, and_iff_right]
          rintro - e he
          rw [← Option.some.inj (hexisting.symm.trans he), ht]
        · next hne =>
          exact iff_of_false (by simp) fun h ↦ hne (h.1 hd existing hexisting)
      · next hother =>
        rw [ih, and_iff_right]
        intro hd e he
        exact absurd he (hother e hd)

/-- A walk succeeds if the requested types are reached, the references of the pending ones are
followed, and the names fit. -/
theorem closure_eq_ok {requested : List TypeRef} {nodes : List Node} :
    (c.closure requested).result = .ok nodes ↔
      ∃ w w', (requested.foldlM c.request {}).result = .ok w ∧
        (c.follow c.maxFollowed w).result = .ok w' ∧ c.NamesFit [] w'.nodes ∧ w'.nodes = nodes := by
  constructor
  · intro h
    obtain ⟨w, hw, h⟩ := Logged.bind_eq_ok.1 h
    obtain ⟨w', hw', h⟩ := Logged.bind_eq_ok.1 h
    obtain ⟨_, hcheck, h⟩ := Logged.bind_eq_ok.1 h
    cases h
    exact ⟨w, w', hw, hw', checkNames_eq_ok.1 (mapError_eq_ok.1 hcheck), rfl⟩
  · rintro ⟨w, w', hw, hw', hfit, rfl⟩
    have hcheck := mapError_eq_ok (f := CompileError.schema).2 (checkNames_eq_ok.2 hfit)
    exact Logged.bind_eq_ok.2 ⟨w, hw, Logged.bind_eq_ok.2 ⟨w', hw',
      Logged.bind_eq_ok.2 ⟨(), hcheck, rfl⟩⟩⟩

/-! ## Invariants of the walk

Requests and rounds alike consist of reaching types one after the other, and a type that is reached
is added or was there. So an invariant has to be checked for the two ways of adding a type, and
nothing has to be known about the order. -/

theorem ReachedEach.induction {I : Walk → Prop} {refs : List TypeRef}
    (h : c.ReachedEach refs w w') (hstep : ∀ ref ∈ refs, ∀ w w', I w → c.Reached ref w w' → I w')
    (hw : I w) : I w' := by
  induction h with
  | nil => exact hw
  | cons hreached _ ih =>
    obtain ⟨hfirst, hrest⟩ := List.forall_mem_cons.1 hstep
    exact ih hrest (hfirst _ _ hw hreached)

section

variable {I : Walk → Prop} (hstep : ∀ ref w w', I w → c.Reached ref w w' → I w')
include hstep

theorem follow_induction (hpending : ∀ w pending, I w → I { w with pending }) {fuel : Nat}
    (hw : I w) (h : (c.follow fuel w).result = .ok w') : I w' := by
  induction fuel generalizing w with
  | zero =>
    cases h
    exact hw
  | succ fuel ih =>
    rw [follow] at h
    split at h
    · cases h
      exact hw
    · next info pending _ =>
      obtain ⟨w'', hfold, h⟩ := Logged.bind_eq_ok.1 h
      have hw'' := (reachedEach_of_reach hfold).induction (fun ref _ ↦ hstep ref)
        (hpending w pending hw)
      exact ih hw'' h

/-- What every step of the walk keeps holds of the closure, whatever is still to be followed. -/
theorem closure_induction (hempty : I {}) (hpending : ∀ w pending, I w → I { w with pending })
    {requested : List TypeRef} {nodes : List Node}
    (h : (c.closure requested).result = .ok nodes) : ∃ w, w.nodes = nodes ∧ I w := by
  obtain ⟨w, w', hw, hw', -, rfl⟩ := closure_eq_ok.1 h
  have hrequested := (reachedEach_of_request hw).induction (fun ref _ ↦ hstep ref) hempty
  exact ⟨w', rfl, follow_induction hstep hpending hrequested hw'⟩

end

theorem adds_of_closure {requested : List TypeRef} {nodes : List Node}
    (h : (c.closure requested).result = .ok nodes) : ∀ n ∈ nodes, c.Adds n := by
  obtain ⟨w, rfl, hw⟩ := closure_induction (I := fun w ↦ ∀ n ∈ w.nodes, c.Adds n)
    (fun _ w w' hw hreached ↦ by
      cases hreached.step with
      | same => exact hw
      | add _ hn => exact List.forall_mem_append.2 ⟨hw, List.forall_mem_singleton.2 hn⟩)
    (fun n hn ↦ absurd hn List.not_mem_nil) (fun _ _ hw ↦ hw) h
  exact hw

theorem importable?_eq_none {t : TypeId} : c.importable? t = none ↔
    ∀ e, c.registry.get? t = some e → e.file = some c.fileName := by
  rw [importable?, Option.filter_eq_none_iff]
  simp

theorem Adds.free {n : Node} (h : c.Adds n) (hd : n.decision = .generate) :
    c.importable? n.ref.type = none := by
  cases h with
  | imported _ => cases hd
  | generated hfree _ => exact hfree

theorem Adds.sound {n : Node} (h : c.Adds n) : n.Sound c := by
  cases h with
  | imported he => exact ⟨(Option.filter_eq_some_iff.1 he).1, rfl⟩
  | generated _ hinfo => exact ⟨_, hinfo, rfl⟩

theorem Step.sound (hw : w.Sound c) (h : c.Step w w') : w'.Sound c := by
  cases h with
  | same => exact hw
  | @add n pending hr hn =>
    constructor
    · rw [List.map_append, List.nodup_append]
      refine ⟨hw.distinct, List.nodup_singleton _, ?_⟩
      intro t ht t' ht' heq
      obtain ⟨n', hn', rfl⟩ := List.mem_map.1 ht
      rw [List.map_singleton, List.mem_singleton] at ht'
      refine hr ?_
      rw [Walk.reaches, List.any_eq_true]
      exact ⟨n', hn', decide_eq_true (heq.trans ht')⟩
    · exact List.forall_mem_append.2 ⟨hw.nodes, List.forall_mem_singleton.2 hn.sound⟩

/-- **Closures are sound.** -/
theorem closure_sound {requested : List TypeRef} {nodes : List Node}
    (h : (c.closure requested).result = .ok nodes) :
    (nodes.map (·.ref.type)).Nodup ∧ ∀ n ∈ nodes, n.Sound c := by
  obtain ⟨w, rfl, hw⟩ := closure_induction (I := Walk.Sound c) (fun _ _ _ hw h ↦ h.step.sound hw)
    ⟨List.nodup_nil, fun n hn ↦ absurd hn List.not_mem_nil⟩ (fun _ _ hw ↦ ⟨hw.distinct, hw.nodes⟩) h
  exact ⟨hw.distinct, hw.nodes⟩

end WalkContext

/-! ## What the resolver names

The resolver looks a type up in the closure, and there it is once. -/

theorem resolverOf_eq_some {nodes : List Node} {t : TypeId} {resolved : Resolved}
    (h : resolverOf nodes t = some resolved) :
    ∃ n ∈ nodes, n.ref.type = t ∧ resolved = ⟨n.qualifiedName, n.sort⟩ := by
  obtain ⟨n, hn, rfl⟩ := Option.map_eq_some_iff.1 h
  exact ⟨n, List.mem_of_find?_eq_some hn, by simpa using List.find?_some hn, rfl⟩

theorem resolverOf_of_mem {nodes : List Node}
    (hdistinct : (nodes.map (·.ref.type)).Nodup) {n : Node}
    (hn : n ∈ nodes) : resolverOf nodes n.ref.type = some ⟨n.qualifiedName, n.sort⟩ := by
  cases h : resolverOf nodes n.ref.type with
  | none =>
    rw [resolverOf, Option.map_eq_none_iff, List.find?_eq_none] at h
    exact absurd (decide_eq_true rfl) (h n hn)
  | some resolved =>
    obtain ⟨n', hn', ht, rfl⟩ := resolverOf_eq_some h
    rw [List.inj_on_of_nodup_map hdistinct hn' hn ht]

end ProtoSchema
