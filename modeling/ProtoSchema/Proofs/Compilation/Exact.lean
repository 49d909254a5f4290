import Mathlib.Data.List.Perm.Subperm
import ProtoSchema.Proofs.Codec.Storing
import ProtoSchema.Proofs.Compilation.Closure
import ProtoSchema.Proofs.Types.Inlining

/-!
# Closures are exact

A closure holds the requested types and what its generated types refer to, and nothing else. The
walk keeps three facts: whatever is reached is needed, whatever is pending was reached, and a
generated type that is not pending any more has all its references reached. When nothing is pending
the last one says that the closure is closed.

Something is pending only so often. Every generated type is either pending or was followed already,
each is there once, and each is described, so after as many rounds as there are descriptions nothing
is left. This holds on any graph of types, however many circles it has.
-/

set_option autoImplicit false

namespace ProtoSchema

open Text

/-- Whether a type is generated. -/
def Node.isGenerated (n : Node) : Bool :=
  match n.decision with
  | .generate => true
  | .imported _ => false

theorem Node.isGenerated_iff {n : Node} : n.isGenerated = true ↔ n.decision = .generate := by
  unfold isGenerated
  split <;> simp [*]

namespace WalkContext

/-! ## What a closure has to hold -/

/-- The least set of types that has the requested ones and whatever the generated types of a closure
in it refer to. -/
inductive Needs (c : WalkContext) (refers : TypeInfo → TypeRef → Prop) (requested : List TypeRef)
    (nodes : List Node) : TypeId → Prop
  | requested {ref : TypeRef} (h : ref ∈ requested) : Needs c refers requested nodes ref.type
  | referenced {n : Node} {info : TypeInfo} {ref : TypeRef}
      (hneeds : Needs c refers requested nodes n.ref.type) (hn : n ∈ nodes)
      (hd : n.decision = .generate) (hinfo : n.ref.info? c.env = some info)
      (href : refers info ref) : Needs c refers requested nodes ref.type

/-- A closure is exact, where `refers` says which types the fields of a type refer to. -/
structure Exact (c : WalkContext) (refers : TypeInfo → TypeRef → Prop) (requested : List TypeRef)
    (nodes : List Node) : Prop where
  types : ∀ t, (∃ n ∈ nodes, n.ref.type = t) ↔ c.Needs refers requested nodes t
  once : (nodes.map (·.ref.type)).Nodup
  /-- Imported are the types that are registered under no file or another one. -/
  imported : ∀ n ∈ nodes, ∀ e, n.decision = .imported e ↔
    c.registry.get? n.ref.type = some e ∧ e.file ≠ some c.fileName
  /-- An imported type has the name of its entry, a generated one that of its description. -/
  named : ∀ n ∈ nodes, (∀ e, n.decision = .imported e → n.qualifiedName = e.name) ∧
    (n.decision = .generate → ∃ info, n.ref.info? c.env = some info ∧
      n.qualifiedName = qualify c.package info.typeName)
  distinct : (nodes.map (·.qualifiedName)).Nodup
  /-- No generated type has the name of another type of the registry. -/
  free : ∀ n ∈ nodes, n.decision = .generate →
    ∀ e, c.registry.named? n.qualifiedName = some e → e.type = n.ref.type

variable {c : WalkContext} {refers refers' : TypeInfo → TypeRef → Prop} {requested : List TypeRef}
  {nodes nodes' : List Node} {w w' : Walk}

theorem Needs.mono {t : TypeId} (h : c.Needs refers requested nodes t) (hnodes : nodes ⊆ nodes')
    (hrefers : ∀ n ∈ nodes, n.decision = .generate → ∀ info, n.ref.info? c.env = some info →
      ∀ ref, refers info ref → refers' info ref) : c.Needs refers' requested nodes' t := by
  induction h with
  | requested h => exact .requested h
  | referenced _ hn hd hinfo href ih =>
    exact .referenced ih (hnodes hn) hd hinfo (hrefers _ hn hd _ hinfo _ href)

theorem Needs.of_subset {t : TypeId} (h : c.Needs refers requested nodes t)
    (hnodes : nodes ⊆ nodes') : c.Needs refers requested nodes' t :=
  h.mono hnodes fun _ _ _ _ _ _ href ↦ href

/-- Exactness depends on what the generated types refer to only. -/
theorem Exact.congr (h : c.Exact refers requested nodes)
    (hrefers : ∀ n ∈ nodes, n.decision = .generate → ∀ info, n.ref.info? c.env = some info →
      ∀ ref, refers info ref ↔ refers' info ref) : c.Exact refers' requested nodes where
  types t := by
    rw [h.types]
    constructor
    · intro hneeds
      exact hneeds.mono (List.Subset.refl _) fun n hn hd info hinfo ref ↦
        (hrefers n hn hd info hinfo ref).1
    · intro hneeds
      exact hneeds.mono (List.Subset.refl _) fun n hn hd info hinfo ref ↦
        (hrefers n hn hd info hinfo ref).2
  once := h.once
  imported := h.imported
  named := h.named
  distinct := h.distinct
  free := h.free

/-! ## What the walk keeps

The first pending type is followed, and meanwhile counts as pending itself. When all its references
are reached it may be dropped. -/

theorem reaches_iff {t : TypeId} : w.reaches t = true ↔ ∃ n ∈ w.nodes, n.ref.type = t := by
  simp [Walk.reaches]

theorem Reached.subset {ref : TypeRef} (h : c.Reached ref w w') : w.nodes ⊆ w'.nodes := by
  cases h with
  | already _ => exact List.Subset.refl _
  | imported _ _ => exact List.subset_append_left _ _
  | generated _ _ _ => exact List.subset_append_left _ _

theorem reaches_append {t : TypeId} {n : Node} {pending : List TypeInfo} :
    ({ nodes := w.nodes ++ [n], pending } : Walk).reaches t = true ↔
      w.reaches t = true ∨ n.ref.type = t := by
  simp [Walk.reaches]

theorem Reached.reaches_iff {ref : TypeRef} (h : c.Reached ref w w') (t : TypeId) :
    w'.reaches t = true ↔ w.reaches t = true ∨ ref.type = t := by
  cases h with
  | already hr =>
    constructor
    · exact .inl
    · rintro (ht | rfl)
      · exact ht
      · exact hr
  | imported _ _ => exact reaches_append
  | generated _ _ hadapter => rw [addGenerated, reaches_append, (withAdapter_eq_ok hadapter).1]

theorem reaches_mono {t : TypeId} (h : w.reaches t = true) (hnodes : w.nodes ⊆ w'.nodes) :
    w'.reaches t = true := by
  obtain ⟨n, hn, ht⟩ := reaches_iff.1 h
  exact reaches_iff.2 ⟨n, hnodes hn, ht⟩

theorem ReachedEach.subset {refs : List TypeRef} (h : c.ReachedEach refs w w') :
    w.nodes ⊆ w'.nodes := by
  induction h with
  | nil => exact List.Subset.refl _
  | cons hreached _ ih => exact List.Subset.trans hreached.subset ih

theorem ReachedEach.reaches {refs : List TypeRef} (h : c.ReachedEach refs w w') :
    ∀ ref ∈ refs, w'.reaches ref.type = true := by
  induction h with
  | nil => exact fun ref href ↦ absurd href List.not_mem_nil
  | cons hreached hrest ih =>
    have hfirst := (hreached.reaches_iff _).2 (.inr rfl)
    exact List.forall_mem_cons.2 ⟨reaches_mono hfirst hrest.subset, ih⟩

theorem Reached.hold {ref : TypeRef} (h : c.Reached ref w w') (info : TypeInfo) :
    c.Reached ref { w with pending := info :: w.pending }
      { w' with pending := info :: w'.pending } := by
  cases h with
  | already hr => exact .already hr
  | imported hr he => exact .imported hr he
  | generated hr hfree hadapter => exact .generated hr hfree hadapter

theorem ReachedEach.hold {refs : List TypeRef} (h : c.ReachedEach refs w w') (info : TypeInfo) :
    c.ReachedEach refs { w with pending := info :: w.pending }
      { w' with pending := info :: w'.pending } := by
  induction h with
  | nil => exact .nil
  | cons hreached _ ih => exact .cons (hreached.hold info) ih

/-- What the walk keeps: whatever is reached is needed, whatever is pending was reached, and a
generated type that is not pending has its references reached. -/
structure Traced (c : WalkContext) (requested : List TypeRef) (w : Walk) : Prop where
  needed : ∀ n ∈ w.nodes, c.Needs (TypeInfo.Refers c.env) requested w.nodes n.ref.type
  pending : ∀ info ∈ w.pending,
    ∃ n ∈ w.nodes, n.decision = .generate ∧ n.ref.info? c.env = some info
  followed : ∀ n ∈ w.nodes, n.decision = .generate → ∀ info, n.ref.info? c.env = some info →
    info ∈ w.pending ∨ ∀ ref, info.Refers c.env ref → w.reaches ref.type = true

theorem Traced.reached {ref : TypeRef} (hw : c.Traced requested w)
    (hneeds : c.Needs (TypeInfo.Refers c.env) requested w.nodes ref.type)
    (h : c.Reached ref w w') : c.Traced requested w' := by
  have hkeeps : ∀ t, c.Needs (TypeInfo.Refers c.env) requested w.nodes t →
      c.Needs (TypeInfo.Refers c.env) requested w'.nodes t :=
    fun _ ht ↦ ht.of_subset h.subset
  have hclosed : ∀ info : TypeInfo, (∀ ref, info.Refers c.env ref → w.reaches ref.type = true) →
      ∀ ref, info.Refers c.env ref → w'.reaches ref.type = true :=
    fun _ hall ref href ↦ reaches_mono (hall ref href) h.subset
  cases h with
  | already _ => exact hw
  | imported _ _ =>
    refine ⟨?_, fun info hinfo ↦ ?_, ?_⟩
    · exact List.forall_mem_append.2 ⟨fun n hn ↦ hkeeps _ (hw.needed n hn),
        List.forall_mem_singleton.2 (hkeeps _ hneeds)⟩
    · obtain ⟨n, hn, hd⟩ := hw.pending info hinfo
      exact ⟨n, List.mem_append_left _ hn, hd⟩
    · refine List.forall_mem_append.2 ⟨fun n hn hd info hinfo ↦ ?_, ?_⟩
      · exact (hw.followed n hn hd info hinfo).imp id (hclosed info)
      · refine List.forall_mem_singleton.2 fun hd ↦ ?_
        cases hd
  | @generated ref' info _ _ hadapter =>
    obtain ⟨ht, hinfo⟩ := withAdapter_eq_ok hadapter
    refine ⟨?_, ?_, ?_⟩
    · exact List.forall_mem_append.2 ⟨fun n hn ↦ hkeeps _ (hw.needed n hn),
        List.forall_mem_singleton.2 (ht ▸ hkeeps _ hneeds)⟩
    · refine List.forall_mem_append.2 ⟨fun info' hinfo' ↦ ?_, ?_⟩
      · obtain ⟨n, hn, hd⟩ := hw.pending info' hinfo'
        exact ⟨n, List.mem_append_left _ hn, hd⟩
      · exact List.forall_mem_singleton.2
          ⟨_, List.mem_append_right _ (List.mem_singleton_self _), rfl, hinfo⟩
    · refine List.forall_mem_append.2 ⟨fun n hn hd info' hinfo' ↦ ?_, ?_⟩
      · exact (hw.followed n hn hd info' hinfo').imp (List.mem_append_left _) (hclosed info')
      · refine List.forall_mem_singleton.2 fun _ info' hinfo' ↦ .inl ?_
        obtain rfl := Option.some.inj (hinfo.symm.trans hinfo')
        exact List.mem_append_right _ (List.mem_singleton_self _)

theorem Traced.reachedEach {refs : List TypeRef} (hw : c.Traced requested w)
    (hneeds : ∀ ref ∈ refs, c.Needs (TypeInfo.Refers c.env) requested w.nodes ref.type)
    (h : c.ReachedEach refs w w') : c.Traced requested w' := by
  have hboth : c.Traced requested w' ∧ w.nodes ⊆ w'.nodes :=
    h.induction (I := fun w' ↦ c.Traced requested w' ∧ w.nodes ⊆ w'.nodes)
      (fun ref href w' w'' ⟨hw', hsubset⟩ hreached ↦
        ⟨hw'.reached ((hneeds ref href).of_subset hsubset) hreached,
          List.Subset.trans hsubset hreached.subset⟩)
      ⟨hw, List.Subset.refl _⟩
  exact hboth.1

theorem traced_of_request (h : (requested.foldlM c.request {}).result = .ok w) :
    c.Traced requested w := by
  have hempty : c.Traced requested {} :=
    ⟨fun n hn ↦ absurd hn List.not_mem_nil, fun info hinfo ↦ absurd hinfo List.not_mem_nil,
      fun n hn ↦ absurd hn List.not_mem_nil⟩
  exact hempty.reachedEach (fun ref href ↦ .requested href) (reachedEach_of_request h)

theorem Traced.round {info : TypeInfo} {pending : List TypeInfo} (hw : c.Traced requested w)
    (hpending : w.pending = info :: pending)
    (h : c.ReachedEach (info.references c.env) { w with pending } w') : c.Traced requested w' := by
  -- Until its references are reached the type counts as pending.
  have hheld : c.ReachedEach (info.references c.env) w
      { w' with pending := info :: w'.pending } := by
    have hheld := h.hold info
    rwa [← hpending] at hheld
  obtain ⟨n, hn, hd, hinfo⟩ := hw.pending info (by rw [hpending]; exact List.mem_cons_self)
  have hneeds : ∀ ref ∈ info.references c.env,
      c.Needs (TypeInfo.Refers c.env) requested w.nodes ref.type := fun ref href ↦
    .referenced (hw.needed n hn) hn hd hinfo (TypeInfo.mem_references.1 href)
  have hw' := hw.reachedEach hneeds hheld
  refine ⟨hw'.needed, fun info' h' ↦ hw'.pending info' (List.mem_cons_of_mem _ h'), ?_⟩
  intro n' hn' hd' info' hinfo'
  rcases hw'.followed n' hn' hd' info' hinfo' with hmem | hclosed
  · rcases List.mem_cons.1 hmem with rfl | hmem
    · exact .inr fun ref href ↦ h.reaches ref (TypeInfo.mem_references.2 href)
    · exact .inl hmem
  · exact .inr hclosed

/-! ## Rounds of the walk

One type is followed in each round. No type is followed twice, so there are no more rounds than
generated types, and no more of those than descriptions. -/

/-- Following pending types for as long as there are any, and what comes of it. -/
inductive Follows (c : WalkContext) : Walk → Except CompileError Walk → Prop
  | done {w : Walk} (h : w.pending = []) : Follows c w (.ok w)
  | failed {w : Walk} {info : TypeInfo} {pending : List TypeInfo} {e : CompileError}
      (h : w.pending = info :: pending)
      (hreach : ((info.references c.env).foldlM (c.reach info.path) { w with pending }).result =
        .error e) : Follows c w (.error e)
  | next {w w' : Walk} {info : TypeInfo} {pending : List TypeInfo}
      {result : Except CompileError Walk} (h : w.pending = info :: pending)
      (hreach : ((info.references c.env).foldlM (c.reach info.path) { w with pending }).result =
        .ok w') (hrest : Follows c w' result) : Follows c w result

theorem Traced.follows {result : Except CompileError Walk} (hw : c.Traced requested w)
    (h : c.Follows w result) (hw' : result = .ok w') : c.Traced requested w' ∧ w'.pending = [] := by
  induction h with
  | done h =>
    cases hw'
    exact ⟨hw, h⟩
  | failed _ _ => cases hw'
  | next h hreach _ ih => exact ih (hw.round h (reachedEach_of_reach hreach)) hw'

/-- How many generated types are reached. -/
def generatedCount (w : Walk) : Nat := w.nodes.countP Node.isGenerated

/-- So many types were followed: every generated type is pending or was followed. -/
structure Balanced (c : WalkContext) (followed : Nat) (w : Walk) : Prop where
  sound : w.Sound c
  count : generatedCount w = w.pending.length + followed

theorem Balanced.reached {ref : TypeRef} {followed : Nat} (hw : c.Balanced followed w)
    (h : c.Reached ref w w') : c.Balanced followed w' := by
  refine ⟨h.step.sound hw.sound, ?_⟩
  have hcount := hw.count
  cases h with
  | already _ => exact hcount
  | imported _ _ =>
    rw [generatedCount, List.countP_append]
    exact hcount
  | generated _ _ _ =>
    rw [generatedCount, addGenerated, List.countP_append, List.length_append]
    change generatedCount w + 1 = _ + 1 + _
    omega

theorem Balanced.reachedEach {refs : List TypeRef} {followed : Nat} (hw : c.Balanced followed w)
    (h : c.ReachedEach refs w w') : c.Balanced followed w' :=
  h.induction (fun _ _ _ _ hw h ↦ hw.reached h) hw

theorem generatedCount_le (hw : w.Sound c) : generatedCount w ≤ c.maxFollowed := by
  have hnodup : ((w.nodes.filter Node.isGenerated).map (·.ref.type)).Nodup :=
    hw.distinct.sublist (List.filter_sublist.map _)
  have hsubset : (w.nodes.filter Node.isGenerated).map (·.ref.type) ⊆
      (c.env ++ builtinAdapters).map (·.type) := by
    intro t ht
    obtain ⟨n, hn, rfl⟩ := List.mem_map.1 ht
    obtain ⟨hn, hd⟩ := List.mem_filter.1 hn
    have hsound := hw.nodes n hn
    rw [Node.Sound, Node.isGenerated_iff.1 hd] at hsound
    obtain ⟨info, hinfo, -⟩ := hsound
    rw [← TypeRef.type_of_info? hinfo]
    exact List.mem_map_of_mem (TypeRef.mem_of_info? hinfo)
  have hlength := (hnodup.subperm hsubset).length_le
  rwa [List.length_map, List.length_map, List.length_append, ← List.countP_eq_length_filter]
    at hlength

theorem Balanced.follows {fuel followed : Nat} (hw : c.Balanced followed w)
    (hfuel : c.maxFollowed ≤ fuel + followed) : c.Follows w (c.follow fuel w).result := by
  induction fuel generalizing w followed with
  | zero =>
    have hle := generatedCount_le hw.sound
    have hcount := hw.count
    exact .done (List.eq_nil_of_length_eq_zero (by omega))
  | succ fuel ih =>
    rw [follow]
    split
    · next h => exact .done h
    · next info pending h =>
      rw [Logged.result_bind]
      have hpopped : c.Balanced (followed + 1) { w with pending } := by
        refine ⟨⟨hw.sound.distinct, hw.sound.nodes⟩, ?_⟩
        have hcount := hw.count
        rw [h, List.length_cons] at hcount
        change generatedCount w = _
        dsimp only
        omega
      cases hreach : ((info.references c.env).foldlM (c.reach info.path)
          { w with pending }).result with
      | error e => exact .failed h hreach
      | ok w' =>
        have hw' := hpopped.reachedEach (reachedEach_of_reach hreach)
        exact .next h hreach (ih hw' (by omega))

theorem follows_of_request (h : (requested.foldlM c.request {}).result = .ok w) :
    c.Follows w (c.follow c.maxFollowed w).result := by
  have hempty : c.Balanced 0 {} :=
    ⟨⟨List.nodup_nil, fun n hn ↦ absurd hn List.not_mem_nil⟩, rfl⟩
  exact (hempty.reachedEach (reachedEach_of_request h)).follows (Nat.le_refl _)

/-! ## Exact closures -/

theorem importable?_eq_some {t : TypeId} {e : Entry} : c.importable? t = some e ↔
    c.registry.get? t = some e ∧ e.file ≠ some c.fileName := by
  rw [importable?, Option.filter_eq_some_iff, bne_iff_ne]

theorem Adds.imported_iff {n : Node} (h : c.Adds n) (e : Entry) :
    n.decision = .imported e ↔ c.registry.get? n.ref.type = some e ∧ e.file ≠ some c.fileName := by
  rw [← importable?_eq_some]
  cases h with
  | imported he =>
    rw [he, Decision.imported.injEq, Option.some.injEq]
  | generated hfree _ =>
    rw [hfree]
    simp

theorem closure_exact_refers (h : (c.closure requested).result = .ok nodes) :
    c.Exact (TypeInfo.Refers c.env) requested nodes := by
  have hadds := adds_of_closure h
  have honce := (closure_sound h).1
  obtain ⟨w, w', hw, hw', hfit, rfl⟩ := closure_eq_ok.1 h
  have hrequested := reachedEach_of_request hw
  obtain ⟨htraced, hpending⟩ := (traced_of_request hw).follows (follows_of_request hw) hw'
  have hsubset : w.nodes ⊆ w'.nodes :=
    follow_induction (I := fun w' ↦ w.nodes ⊆ w'.nodes)
      (fun _ _ _ hsubset hreached ↦ List.Subset.trans hsubset hreached.subset)
      (fun _ _ hsubset ↦ hsubset)
      (List.Subset.refl _) hw'
  refine ⟨fun t ↦ ⟨?_, fun hneeds ↦ ?_⟩, honce, fun n hn ↦ (hadds n hn).imported_iff, ?_,
    hfit.distinct, hfit.own⟩
  · rintro ⟨n, hn, rfl⟩
    exact htraced.needed n hn
  · rw [← reaches_iff]
    induction hneeds with
    | requested href => exact reaches_mono (hrequested.reaches _ href) hsubset
    | referenced _ hn hd hinfo href _ =>
      rcases htraced.followed _ hn hd _ hinfo with hmem | hclosed
      · rw [hpending] at hmem
        exact absurd hmem List.not_mem_nil
      · exact hclosed _ href
  · intro n hn
    cases hadds n hn with
    | imported _ =>
      refine ⟨fun e he ↦ ?_, fun hd ↦ by cases hd⟩
      rw [Decision.imported.inj he]
    | @generated ref info _ hinfo => exact ⟨fun e he ↦ by (cases he), fun _ ↦ ⟨info, hinfo, rfl⟩⟩

/-- **Closures are exact.** The walk comes to an end on every graph of types. If it succeeds, the
closure has just the requested types and what its generated types refer to, through supertypes at
any depth unless a type would be flattened within itself. Types that are flattened within themselves
make a difference only if they have another description there. -/
theorem closure_exact (c : WalkContext) (requested : List TypeRef) :
    (∀ w, (requested.foldlM c.request {}).result = .ok w →
      c.Follows w (c.follow c.maxFollowed w).result) ∧
    ∀ nodes, (c.closure requested).result = .ok nodes →
      c.Exact (TypeInfo.Refers c.env) requested nodes ∧
      ((∀ n ∈ nodes, n.decision = .generate → ∀ info, n.ref.info? c.env = some info →
          info.Uniform c.env) → c.Exact (TypeInfo.RefersDeeply c.env) requested nodes) := by
  refine ⟨fun w hw ↦ follows_of_request hw, fun nodes h ↦ ?_⟩
  have hexact := closure_exact_refers h
  refine ⟨hexact, fun huniform ↦ hexact.congr fun n hn hd info hinfo ref ↦ ?_⟩
  exact (huniform n hn hd info hinfo).refers_iff

end WalkContext

namespace Grove

def colour : TypeId := ⟨"grove::Colour"⟩

def plant : TypeId := ⟨"grove::Plant"⟩

def tree : TypeId := ⟨"grove::Tree"⟩

def leaf : TypeId := ⟨"grove::Leaf"⟩

/-- Trees have trees below them and inherit the leaves of plants, which know their trees. -/
def environment : Environment :=
  [{ type := colour, path := colour.name, kind := .enum [{ name := "Green", number := 0 }] },
    .storing plant
      [({ name := "leaves", kind := .field (.map (.scalar .string) (.message (.of leaf)))
          getter := · })],
    .storing tree
      [({ name := "plant", kind := .flatten (.of plant), getter := · }),
        ({ name := "below", kind := .field (.repeated (.message (.of tree))), getter := · })],
    .storing leaf
      [({ name := "tree", kind := .field (.optional (.message (.of tree))), getter := · }),
        ({ name := "colour", kind := .field (.enum (.of colour) true), getter := · })]]

/-- The colour is registered by another file. -/
def registry : Option Registry :=
  (({ fileName := "colour.proto", requested := [.of colour] } : CompilationUnit).compile
    environment .empty 0).result.toOption.map (·.2)

def context (r : Registry) : WalkContext := ⟨environment, r, "grove.proto", none, true⟩

end Grove

/-- A tree brings its leaves along, which bring the colour, but no plant. -/
theorem Grove.closure_exact_tree : ∃ r w w' nodes, registry = some r ∧
    ([TypeRef.of tree].foldlM (context r).request {}).result = .ok w ∧
    (context r).Follows w (.ok w') ∧
    ((context r).closure [.of tree]).result = .ok nodes ∧
    nodes.map (fun n ↦ (n.ref.type, n.isGenerated)) =
      [(tree, true), (leaf, true), (colour, false)] ∧
    (context r).Exact (TypeInfo.RefersDeeply environment) [.of tree] nodes := by
  have hcloses : (registry.map fun r ↦ ((context r).closure [.of tree]).result.toOption.map
      fun nodes ↦ nodes.map fun n ↦ (n.ref.type, n.isGenerated)) =
        some (some [(tree, true), (leaf, true), (colour, false)]) := by
    decide +kernel
  obtain ⟨r, hr, hcloses⟩ := Option.map_eq_some_iff.1 hcloses
  obtain ⟨nodes, hnodes, htypes⟩ := Option.map_eq_some_iff.1 hcloses
  have hnodes := toOption_eq_some.1 hnodes
  have hdistinct : ((environment ++ builtinAdapters).map (·.type)).Nodup := by decide +kernel
  obtain ⟨hends, hcloses⟩ := WalkContext.closure_exact (context r) [.of tree]
  have hexact := (hcloses nodes hnodes).2 fun n _ _ info hinfo ↦
    TypeInfo.uniform_of_nodup hdistinct (TypeRef.mem_of_info? hinfo)
  obtain ⟨w, w', hw, hw', -⟩ := WalkContext.closure_eq_ok.1 hnodes
  have hfollows := hends w hw
  rw [hw'] at hfollows
  exact ⟨r, w, w', nodes, hr, hw, hfollows, hnodes, htypes, hexact⟩

namespace Knot

def knot : TypeId := ⟨"knot::Knot"⟩

def duration : TypeId := ⟨"core::time::Duration"⟩

/-- A type that is flattened within itself, with another description there. -/
def environment : Environment :=
  [.storing knot [({ name := "inner", kind := .flatten ⟨knot, .described 1⟩, getter := · })],
    .storing knot
      [({ name := "length", kind := .field (.message (.foreign duration)), getter := · })]]

def context : WalkContext := ⟨environment, .empty, "knot.proto", none, true⟩

end Knot

/-- What only the other description refers to is not reached. -/
theorem Knot.not_exact : ∃ nodes, (context.closure [.of knot]).result = .ok nodes ∧
    ¬context.Exact (TypeInfo.RefersDeeply environment) [.of knot] nodes := by
  have hcloses : (context.closure [.of knot]).result.toOption.map
      (fun nodes ↦ nodes.map fun n ↦ (n.ref, n.isGenerated)) = some [(.of knot, true)] := by
    decide +kernel
  obtain ⟨nodes, hnodes, hrefs⟩ := Option.map_eq_some_iff.1 hcloses
  obtain ⟨n, rfl, hn⟩ := List.map_eq_singleton_iff.1 hrefs
  obtain ⟨href, hd⟩ := Prod.mk.inj hn
  refine ⟨[n], toOption_eq_some.1 hnodes, fun hexact ↦ ?_⟩
  have hinfo : ∃ info other, n.ref.info? environment = some info ∧
      info.Flattens environment other ∧ other.Declares (.foreign duration) := by
    refine ⟨_, _, by rw [href]; rfl, ⟨_, rfl, _, List.mem_singleton_self _, _, rfl, rfl⟩,
      ⟨_, rfl, _, List.mem_singleton_self _, _, rfl, .message⟩⟩
  obtain ⟨info, other, hinfo, hflat, hdeclares⟩ := hinfo
  have hneeds : context.Needs (TypeInfo.RefersDeeply environment) [.of knot] [n]
      (TypeRef.foreign duration).type :=
    .referenced ((hexact.types _).1 ⟨n, List.mem_singleton_self n, rfl⟩)
      (List.mem_singleton_self n) (Node.isGenerated_iff.1 hd) hinfo
      ⟨other, .single hflat, hdeclares⟩
  obtain ⟨n', hn', ht⟩ := (hexact.types duration).2 hneeds
  rw [List.mem_singleton.1 hn', href] at ht
  exact absurd ht (by decide)

end ProtoSchema
