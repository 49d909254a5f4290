import ProtoSchema.Proofs.Codec.Tables

/-!
# Running by tables

A marshaller that goes by tables changes the slots of a message at positions that it looks up, and
builds an instance by taking the value for each slot of the layout out of a list, so that it cannot
be taken again. Neither is how plans and layout are read elsewhere: there the members of a oneof are
recognized by its name, and each field is handed the value of the plan that leads to it. With tables
that fit it makes no difference.
-/

set_option autoImplicit false

namespace ProtoSchema

open Wire

/-! ## Unsetting values -/

@[simp] theorem unset_nil (values : List (Option Value)) : unset [] values = values := rfl

theorem unset_cons (k : Nat) (ks : List Nat) (values : List (Option Value)) :
    unset (k :: ks) values = unset ks (values.set k none) := rfl

theorem unset_append (ks ks' : List Nat) (values : List (Option Value)) :
    unset (ks ++ ks') values = unset ks' (unset ks values) := List.foldl_append

theorem getElem?_unset (ks : List Nat) (values : List (Option Value)) (j : Nat) :
    (unset ks values)[j]? = if j ∈ ks then values[j]?.map fun _ ↦ none else values[j]? := by
  induction ks generalizing values with
  | nil => simp
  | cons k rest ih =>
    rw [unset_cons, ih, List.getElem?_set']
    by_cases hj : j = k
    · subst hj
      cases values[j]? <;> simp
    · simp [hj, Ne.symm hj]

theorem length_unset (ks : List Nat) (values : List (Option Value)) :
    (unset ks values).length = values.length := by
  induction ks generalizing values with
  | nil => rw [unset_nil]
  | cons k rest ih => rw [unset_cons, ih, List.length_set]

theorem getElem?_unset_of_notMem {ks : List Nat} {j : Nat} (h : j ∉ ks)
    (values : List (Option Value)) : (unset ks values)[j]? = values[j]? := by
  rw [getElem?_unset, if_neg h]

theorem foldlM_setAt? {ks : List Nat} {values : List (Option Value)}
    (h : ∀ k ∈ ks, k < values.length) :
    ks.foldlM (fun values k ↦ setAt? values k none) values = some (unset ks values) := by
  induction ks generalizing values with
  | nil => rfl
  | cons k rest ih =>
    rw [List.forall_mem_cons] at h
    rw [List.foldlM_cons, setAt?, if_pos h.1]
    exact ih fun k' hk' ↦ by rw [List.length_set]; exact h.2 k' hk'

/-! ## Changing slots

The tables know the members of a oneof by their positions, and these are the positions of the plans
that exclude each other. A change leaves the number of slots as it is, so every later change finds
its position, too. -/

namespace MessageMarshaller

variable {m : MessageMarshaller} {t : Tables}

theorem Fits.siblings (h : m.Fits t) {i : Nat} {p : Plan} (hp : m.plans[i]? = some p) (v : Value) :
    ∃ ks, t.unsets? m p (.set v) = some ks ∧ (∀ k ∈ ks, k < m.plans.length) ∧
      ∀ j, j ∈ ks ↔ Draft.exclude m i j = true := by
  cases hg : p.field.oneof with
  | none =>
    refine ⟨[], by rw [Tables.unsets?, oneofIndex?, hg]; rfl, by simp, fun j ↦ ?_⟩
    refine iff_of_false List.not_mem_nil fun hx ↦ ?_
    obtain ⟨p', q, g, hp', -, hpg, -⟩ := Draft.exclude_eq_true.1 hx
    obtain rfl := Option.some.inj (hp.symm.trans hp')
    cases hg.symm.trans hpg
  | some g =>
    obtain ⟨index, -, ks, hindex, -, -, hks, -, hmem⟩ :=
      h.oneofs p (List.mem_of_getElem? hp) g hg
    refine ⟨ks, by rw [Tables.unsets?, hindex]; exact hks, fun j hj ↦ ?_, fun j ↦ ?_⟩
    · obtain ⟨q, hq, -⟩ := (hmem j).1 hj
      exact (List.getElem?_eq_some_iff.1 hq).1
    · rw [hmem, Draft.exclude_eq_true]
      constructor
      · rintro ⟨q, hq, hqg⟩
        exact ⟨p, q, g, hp, hq, hg, hqg⟩
      · rintro ⟨p', q, g', hp', hq, hpg, hqg⟩
        obtain rfl := Option.some.inj (hp.symm.trans hp')
        exact ⟨q, hq, hqg.trans (hpg.symm.trans hg)⟩

theorem Fits.unsets (h : m.Fits t) {i : Nat} {p : Plan} (hp : m.plans[i]? = some p) (c : Change) :
    ∃ ks, t.unsets? m p c = some ks ∧ (∀ k ∈ ks, k < m.plans.length) ∧
      ∀ j slot, Draft.slotAfter m j slot { change := some (i, c) } =
        if i = j then c.on (if j ∈ ks then none else slot) else if j ∈ ks then none else slot := by
  cases c with
  | set v =>
    obtain ⟨ks, hks, hrange, hmem⟩ := h.siblings hp v
    refine ⟨ks, hks, hrange, fun j slot ↦ ?_⟩
    simp only [Draft.slotAfter, hmem, Change.on]
  | append vs | insert k v =>
    refine ⟨[], rfl, by simp, fun j slot ↦ ?_⟩
    simp only [Draft.slotAfter, List.not_mem_nil, if_false]

/-- **A change stays in range**, and is what the names of the oneofs say it is. -/
theorem Fits.change?_eq (h : m.Fits t) {slots : List (Option Value)}
    (hlen : slots.length = m.plans.length) {i : Nat} {p : Plan} (hp : m.plans[i]? = some p)
    (c : Change) : t.change? m slots i c = some (Draft.change m slots i c) := by
  obtain ⟨ks, hks, hrange, hafter⟩ := h.unsets hp c
  have hi : i < slots.length := by
    rw [hlen]
    exact (List.getElem?_eq_some_iff.1 hp).1
  have hslot : (unset ks slots)[i]? = some (if i ∈ ks then none else slots[i]) := by
    rw [getElem?_unset, List.getElem?_eq_getElem hi]
    split <;> rfl
  have hset : setAt? (unset ks slots) i (c.on (if i ∈ ks then none else slots[i])) =
      some (Draft.change m slots i c) := by
    rw [setAt?, length_unset, if_pos hi]
    congr 1
    apply List.ext_getElem?
    intro j
    rw [Draft.getElem?_change, List.getElem?_set, length_unset, getElem?_unset]
    by_cases hij : i = j
    · subst hij
      rw [if_pos rfl, if_pos hi, List.getElem?_eq_getElem hi, Option.map_some, hafter, if_pos rfl]
    · rw [if_neg hij]
      simp only [hafter, if_neg hij]
      split <;> simp
  refine Option.bind_eq_some_iff.2 ⟨p, hp, Option.bind_eq_some_iff.2 ⟨ks, hks, ?_⟩⟩
  refine Option.bind_eq_some_iff.2 ⟨_, foldlM_setAt? (by rwa [hlen]), ?_⟩
  exact Option.bind_eq_some_iff.2 ⟨_, hslot, hset⟩

theorem length_apply (d : Draft) (e : Effect) :
    (Draft.apply m d e).slots.length = d.slots.length := by
  rw [Draft.apply]
  cases e.change with
  | none => rfl
  | some change =>
    obtain ⟨k, c⟩ := change
    cases c <;> simp [Draft.change]

theorem Fits.step?_eq (h : m.Fits t) {reg : Registry} {nested : NestedReader} {input rest : Bytes}
    {e : Effect} (he : (m.readRecord reg nested input).result = .ok (e, rest)) {d : Draft}
    (hlen : d.slots.length = m.plans.length) : t.step? m d e = some (Draft.apply m d e) := by
  unfold Tables.step? Draft.apply
  cases hc : e.change with
  | none => rfl
  | some change =>
    obtain ⟨k, c⟩ := change
    obtain ⟨p, hp, -⟩ := brings_of_readRecord he hc
    simp only [h.change?_eq hlen hp]
    rfl

/-- **A run stays in range**, however many records were read. -/
theorem Fits.foldlM_step? (h : m.Fits t) {reg : Registry} {nested : NestedReader}
    {effects : List Effect}
    (heffects : ∀ e ∈ effects, ∃ input rest, (m.readRecord reg nested input).result = .ok (e, rest))
    {d : Draft} (hlen : d.slots.length = m.plans.length) :
    effects.foldlM (t.step? m) d = some (effects.foldl (Draft.apply m) d) := by
  induction effects generalizing d with
  | nil => rfl
  | cons e rest ih =>
    obtain ⟨⟨input, left, he⟩, hrest⟩ := List.forall_mem_cons.1 heffects
    rw [List.foldlM_cons, h.step?_eq he hlen, List.foldl_cons]
    exact ih hrest (by rwa [length_apply])

end MessageMarshaller

/-! ## Building instances

A value that is taken is replaced by an absent one, and whoever came for it again would find
nothing. Slots that are bound to different positions do not get in each other's way. -/

namespace Layout

variable {hand : List Nat → Option Value}

theorem hand_of_unset {base : List Nat} {paths : List (List Nat)} {bound : List Nat → Option Nat}
    {values : List (Option Value)} {ks : List Nat}
    (hhand : ∀ path ∈ paths, hand (base ++ path) = (bound path).bind (values[·]?.join))
    (hother : ∀ k ∈ ks, ∀ k' ∈ paths.filterMap bound, k ≠ k') :
    ∀ path ∈ paths, hand (base ++ path) = (bound path).bind ((unset ks values)[·]?.join) := by
  intro path hpath
  rw [hhand path hpath]
  cases hk : bound path with
  | none => rfl
  | some k =>
    have hnotMem : k ∉ ks := fun hmem ↦ hother k hmem k (List.mem_filterMap.2 ⟨path, hpath, hk⟩) rfl
    rw [Option.bind_some, Option.bind_some, getElem?_unset_of_notMem hnotMem]

mutual

/-- If no two slots are bound to one position, an instance is built of the values at the positions,
and they are gone afterwards. -/
theorem assembleBy_eq (l : Layout) (base : List Nat) (unknown : UnknownFields)
    (bound : List Nat → Option Nat) (values : List (Option Value))
    (hnodup : (l.fieldPaths.filterMap bound).Nodup)
    (hhand : ∀ path ∈ l.fieldPaths, hand (base ++ path) = (bound path).bind (values[·]?.join)) :
    assembleBy unknown l (l.memberSlots bound) values =
      (l.assemble hand base unknown).map fun i ↦
        (i, unset (l.fieldPaths.filterMap bound) values) := by
  match l with
  | mk typePath names factory unknownOf parts =>
    rw [fieldPaths] at hnodup hhand
    rw [memberSlots, assembleBy, takeParts_eq parts base 0 bound values hnodup hhand, assemble,
      fieldPaths]
    cases assembleParts hand base 0 parts with
    | error e => rfl
    | ok slots =>
      simp only [map_ok, ok_bind]
      cases factory ⟨typePath, names, slots, unknown⟩ <;> rfl

theorem takeParts_eq (parts : List Part) (base : List Nat) (index : Nat)
    (bound : List Nat → Option Nat) (values : List (Option Value))
    (hnodup : ((fieldPathsFrom index parts).filterMap bound).Nodup)
    (hhand : ∀ path ∈ fieldPathsFrom index parts,
      hand (base ++ path) = (bound path).bind (values[·]?.join)) :
    takeParts parts (slotsFrom bound index parts) values =
      (assembleParts hand base index parts).map fun slots ↦
        (slots, unset ((fieldPathsFrom index parts).filterMap bound) values) := by
  match parts with
  | [] =>
    rw [slotsFrom, assembleParts, fieldPathsFrom]
    rfl
  | .field getter :: rest =>
    have hks : (fieldPathsFrom index (.field getter :: rest)).filterMap bound =
        (bound [index]).toList ++ (fieldPathsFrom (index + 1) rest).filterMap bound := by
      rw [fieldPathsFrom, List.filterMap_cons]
      cases bound [index] <;> rfl
    rw [hks] at hnodup ⊢
    rw [fieldPathsFrom, List.forall_mem_cons] at hhand
    obtain ⟨-, hnodup, hother⟩ := List.nodup_append.1 hnodup
    rw [slotsFrom, takeParts, takeParts_eq rest base (index + 1) bound _ hnodup
      (hand_of_unset hhand.2 hother), assembleParts, hhand.1, unset_append]
    cases assembleParts hand base (index + 1) rest <;> rfl
  | .flatten getter parent :: rest =>
    have hks : (fieldPathsFrom index (.flatten getter parent :: rest)).filterMap bound =
        parent.fieldPaths.filterMap (fun path ↦ bound (index :: path)) ++
          (fieldPathsFrom (index + 1) rest).filterMap bound := by
      rw [fieldPathsFrom, List.filterMap_append, List.filterMap_map]
      rfl
    rw [hks] at hnodup ⊢
    rw [fieldPathsFrom, List.forall_mem_append, List.forall_mem_map] at hhand
    obtain ⟨hinner, hnodup, hother⟩ := List.nodup_append.1 hnodup
    have hparent := assembleBy_eq parent (base ++ [index]) .empty (fun path ↦ bound (index :: path))
      values hinner fun path hpath ↦ by
        rw [List.append_assoc, List.singleton_append]
        exact hhand.1 path hpath
    have hrest := takeParts_eq rest base (index + 1) bound _ hnodup (hand_of_unset hhand.2 hother)
    rw [slotsFrom, takeParts, hparent, assembleParts, unset_append]
    cases assemble hand (base ++ [index]) .empty parent with
    | error e => rfl
    | ok i =>
      simp only [map_ok, ok_bind]
      rw [hrest]
      cases assembleParts hand base (index + 1) rest <;> rfl

end

end Layout

namespace MessageMarshaller

variable {m : MessageMarshaller} {t : Tables}

theorem Complete.filterMap_fieldPaths (h : m.Complete) :
    m.layout.fieldPaths.filterMap (enter Plan.path (fun _ ↦ none) m.plans.zipIdx) =
      List.range m.plans.length := by
  have hbound : ∀ e ∈ m.plans.zipIdx,
      enter Plan.path (fun _ ↦ none) m.plans.zipIdx e.1.path = some e.2 := by
    intro e he
    exact (enter_zipIdx h.distinct).2 ⟨e.1, List.mem_zipIdx_iff_getElem?.1 he, rfl⟩
  have hzip : m.layout.fieldPaths = m.plans.zipIdx.map (·.1.path) := by
    rw [← h.paths, ← List.zipIdx_map_fst 0 m.plans, List.map_map, List.zipIdx_map_fst]
    rfl
  rw [hzip, List.filterMap_map, List.range_eq_range', ← List.zipIdx_map_snd 0 m.plans,
    ← List.filterMap_eq_map]
  exact List.filterMap_congr hbound

/-- **Every value goes to one slot.** The values of a message are taken by the slots of its layout,
each by the one at the path of its plan, and none is left. -/
theorem Complete.assembleBy_eq (h : m.Complete) (ht : m.tables? = some t)
    {values : List (Option Value)} (hlen : values.length = m.plans.length)
    (unknown : UnknownFields) :
    m.layout.assembleBy unknown t.slots values =
      (m.layout.assemble (valueAt (m.plans.zip values)) [] unknown).map fun i ↦
        (i, values.map fun _ ↦ none) := by
  have hhand : ∀ path ∈ m.layout.fieldPaths, valueAt (m.plans.zip values) ([] ++ path) =
      (enter Plan.path (fun _ ↦ none) m.plans.zipIdx path).bind (values[·]?.join) := by
    intro path hpath
    rw [← h.paths] at hpath
    obtain ⟨p, hp, rfl⟩ := List.mem_map.1 hpath
    obtain ⟨k, hk⟩ := List.mem_iff_getElem?.1 hp
    have hv := List.getElem?_eq_getElem (hlen ▸ (List.getElem?_eq_some_iff.1 hk).1)
    rw [(enter_zipIdx h.distinct).2 ⟨p, hk, rfl⟩, Option.bind_some, hv]
    exact valueAt_zip h.distinct hlen.symm hk hv
  have hleft : unset (List.range m.plans.length) values = values.map fun _ ↦ none := by
    apply List.ext_getElem?
    intro j
    rw [getElem?_unset, List.getElem?_map]
    split
    · rfl
    · next hj =>
      rw [List.mem_range, ← hlen] at hj
      rw [List.getElem?_eq_none (Nat.le_of_not_lt hj), Option.map_none]
  rw [h.slots_eq ht, Layout.assembleBy_eq m.layout [] unknown _ values ?_ hhand,
    h.filterMap_fieldPaths, hleft]
  rw [h.filterMap_fieldPaths]
  exact List.nodup_range

theorem length_foldl_apply (effects : List Effect) (d : Draft) :
    (effects.foldl (Draft.apply m) d).slots.length = d.slots.length := by
  induction effects generalizing d with
  | nil => rfl
  | cons e rest ih => rw [List.foldl_cons, ih, length_apply]

/-- **Reading by tables** that fit stays in range, gives what reading by plans and layout gives, and
uses up all values. -/
theorem Complete.decode?_eq (h : m.Complete) (ht : m.tables? = some t) (reg : Registry)
    (nested : NestedReader) (input : Bytes) : t.decode? m reg nested input =
      some ((m.decodeWith reg nested input).result.map fun i ↦ (i, m.plans.map fun _ ↦ none)) := by
  obtain ⟨t', ht', hfits⟩ := h.exists_fits
  obtain rfl := Option.some.inj (ht.symm.trans ht')
  rw [Tables.decode?, Draft.result_decodeWith]
  cases heffects : (readAll (m.readRecord reg nested) input).result with
  | error e => rfl
  | ok effects =>
    have hrun := hfits.foldlM_step? (d := .empty m)
      (fun e he ↦ exists_step_of_mem_readAll heffects he) (by simp [Draft.empty])
    rw [ok_bind, Draft.result_finish]
    simp only [hrun, Option.map_some]
    congr 1
    have hlen : (effects.foldl (Draft.apply m) (.empty m)).slots.length = m.plans.length := by
      rw [length_foldl_apply, Draft.empty, List.length_map]
    generalize effects.foldl (Draft.apply m) (.empty m) = d at hlen
    cases hvalues : (m.plans.zip d.slots).mapM fun e ↦ m.fill e.1 e.2 with
    | error e => rfl
    | ok values =>
      have hvlen : values.length = m.plans.length := by
        rw [← (mapM_eq_ok.1 hvalues).length_eq, List.length_zip, hlen, Nat.min_self]
      simp only [ok_bind]
      have hgone : (values.map fun _ ↦ none) = m.plans.map fun _ ↦ (none : Option Value) := by
        rw [List.map_const', List.map_const', hvlen]
      rw [h.assembleBy_eq ht hvlen, hgone]
      cases m.layout.assemble (valueAt (m.plans.zip values)) [] d.unknown <;> rfl

end MessageMarshaller

end ProtoSchema
