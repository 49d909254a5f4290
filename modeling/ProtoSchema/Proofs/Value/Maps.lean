import Mathlib.Data.List.Induction
import ProtoSchema.Proofs.Result
import ProtoSchema.Value.Native

/-!
# Native maps

A native map is made from a list of pairs by putting in one pair after the other. Whatever the
order in which it keeps its keys, it then holds each key once, with the value of the last pair that
has the key. `KeepsLast` says this about the list of pairs and the map, so that it does not depend
on how the map came about.

One step asks for different things of the two kinds of maps. A hashed map goes through all entries,
so its keys need only be different. A sorted map stops in front of the first larger key, and that no
entry behind it has the same key rests on the order of the keys, which each step has to keep.
-/

set_option autoImplicit false

namespace ProtoSchema

/-! ## Keys -/

namespace KeyType

variable {k : KeyType} {a b c : k.Carrier}

theorem same_iff : k.same a b = true ↔ a = b := by
  induction k with
  | boxed k ih => exact ih
  | _ => exact decide_eq_true_iff

theorem less_irrefl : ¬k.less a a = true := by
  induction k with
  | boxed k ih => exact ih
  | bool => cases a <;> decide
  | i32 | i64 | u32 | u64 | string | bytes => exact mt of_decide_eq_true Std.lt_irrefl

theorem less_trans (h : k.less a b = true) (h' : k.less b c = true) : k.less a c = true := by
  induction k with
  | boxed k ih => exact ih h h'
  | bool =>
    revert h h'
    cases a <;> cases b <;> cases c <;> decide
  | i32 | i64 | u32 | u64 | string | bytes =>
    exact decide_eq_true (Std.lt_trans (of_decide_eq_true h) (of_decide_eq_true h'))

theorem less_of_not_less (hne : a ≠ b) (h : ¬k.less a b = true) : k.less b a = true := by
  induction k with
  | boxed k ih => exact ih hne h
  | bool =>
    revert hne h
    cases a <;> cases b <;> decide
  | i32 | i64 | u32 | u64 | string | bytes =>
    rcases Std.lt_trichotomy a b with hlt | rfl | hlt
    · exact absurd (decide_eq_true hlt) h
    · exact absurd rfl hne
    · exact decide_eq_true hlt

end KeyType

/-! ## The last pair of each key -/

section

variable {K α : Type}

/-- No pair behind it has the same key. -/
def IsLast (pairs : List (K × α)) (e : K × α) : Prop :=
  ∃ front back, pairs = front ++ e :: back ∧ ∀ later ∈ back, later.1 ≠ e.1

/-- The map holds each key once, with the value of its last pair. -/
structure KeepsLast (pairs map : List (K × α)) : Prop where
  nodup : (map.map (·.1)).Nodup
  mem : ∀ e, e ∈ map ↔ IsLast pairs e

/-- A map holds a pair, and for other keys it holds what it held before. -/
def PutInto (map : List (K × α)) (e : K × α) (map' : List (K × α)) : Prop :=
  ∀ e', e' ∈ map' ↔ e' = e ∨ e'.1 ≠ e.1 ∧ e' ∈ map

theorem isLast_append_singleton {pairs : List (K × α)} {e e' : K × α} :
    IsLast (pairs ++ [e]) e' ↔ e' = e ∨ e'.1 ≠ e.1 ∧ IsLast pairs e' := by
  constructor
  · rintro ⟨front, back, heq, hback⟩
    rcases List.eq_nil_or_concat back with rfl | ⟨back, last, rfl⟩
    · exact .inl (List.singleton_inj.1 (List.append_inj_right' heq rfl)).symm
    · rw [List.concat_eq_append, ← List.cons_append, ← List.append_assoc] at heq
      obtain ⟨rfl, hlast⟩ := List.append_inj' heq rfl
      obtain rfl := List.singleton_inj.1 hlast
      rw [List.concat_eq_append] at hback
      exact .inr ⟨(hback e (List.mem_append_right _ List.mem_cons_self)).symm, front, back, rfl,
        fun later hlater ↦ hback later (List.mem_append_left _ hlater)⟩
  · rintro (rfl | ⟨hne, front, back, rfl, hback⟩)
    · exact ⟨pairs, [], rfl, fun later hlater ↦ absurd hlater List.not_mem_nil⟩
    · refine ⟨front, back ++ [e], by rw [List.append_assoc, List.cons_append],
        fun later hlater ↦ ?_⟩
      rcases List.mem_append.1 hlater with hlater | hlater
      · exact hback later hlater
      · rw [List.mem_singleton.1 hlater]
        exact hne.symm

theorem keepsLast_nil : KeepsLast ([] : List (K × α)) [] where
  nodup := List.nodup_nil
  mem e := by
    refine ⟨fun h ↦ absurd h List.not_mem_nil, ?_⟩
    rintro ⟨front, back, heq, -⟩
    exact absurd heq.symm (List.append_ne_nil_of_right_ne_nil _ (List.cons_ne_nil _ _))

/-- One step: a pair that is put into the map is the last one of its key. -/
theorem KeepsLast.put {pairs map map' : List (K × α)} {e : K × α} (h : KeepsLast pairs map)
    (hput : PutInto map e map') (hnodup : (map'.map (·.1)).Nodup) :
    KeepsLast (pairs ++ [e]) map' where
  nodup := hnodup
  mem e' := by rw [hput, isLast_append_singleton, h.mem]

/-! ## Putting in a pair

A new key stands in front, an entry with the same key is replaced, and one with another key is
passed. This is all that either kind of map does, and `PutInto` holds in each of the cases. -/

namespace PutInto

variable {map rest rest' : List (K × α)} {e head : K × α}

theorem front (h : ∀ e' ∈ map, e'.1 ≠ e.1) : PutInto map e (e :: map) := by
  intro e'
  rw [List.mem_cons]
  exact or_congr_right ⟨fun he ↦ ⟨h e' he, he⟩, And.right⟩

theorem replace (hkey : head.1 = e.1) (h : ∀ e' ∈ rest, e'.1 ≠ e.1) :
    PutInto (head :: rest) e (e :: rest) := by
  intro e'
  rw [front h, List.mem_cons]
  refine or_congr_right (and_congr_right fun hne ↦ (or_iff_right ?_).symm)
  rintro rfl
  exact hne hkey

theorem cons (hkey : head.1 ≠ e.1) (h : PutInto rest e rest') :
    PutInto (head :: rest) e (head :: rest') := by
  intro e'
  rw [List.mem_cons, List.mem_cons, h]
  constructor
  · rintro (rfl | rfl | ⟨hne, he⟩)
    · exact .inr ⟨hkey, .inl rfl⟩
    · exact .inl rfl
    · exact .inr ⟨hne, .inr he⟩
  · rintro (rfl | ⟨hne, rfl | he⟩)
    · exact .inr (.inl rfl)
    · exact .inl rfl
    · exact .inr (.inr ⟨hne, he⟩)

end PutInto

end

section

variable {α : Type} {k : KeyType} {key : k.Carrier} {a : α} {map : List (k.Carrier × α)}

theorem putInto_insertInOrder (h : (map.map (·.1)).Nodup) :
    PutInto map (key, a) (insertInOrder k key a map) := by
  induction map with
  | nil => exact .front fun e he ↦ absurd he List.not_mem_nil
  | cons head rest ih =>
    obtain ⟨key', a'⟩ := head
    rw [List.map_cons, List.nodup_cons] at h
    obtain ⟨hhead, hrest⟩ := h
    rw [insertInOrder]
    by_cases hsame : k.same key key' = true
    · obtain rfl := KeyType.same_iff.1 hsame
      rw [if_pos hsame]
      exact .replace rfl fun e he heq ↦ hhead (List.mem_map.2 ⟨e, he, heq⟩)
    · rw [if_neg hsame]
      exact .cons (fun heq ↦ hsame (KeyType.same_iff.2 heq.symm)) (ih hrest)

theorem nodup_insertInOrder (h : (map.map (·.1)).Nodup) :
    ((insertInOrder k key a map).map (·.1)).Nodup := by
  induction map with
  | nil => exact List.pairwise_singleton _ _
  | cons head rest ih =>
    obtain ⟨key', a'⟩ := head
    rw [List.map_cons, List.nodup_cons] at h
    obtain ⟨hhead, hrest⟩ := h
    rw [insertInOrder]
    by_cases hsame : k.same key key' = true
    · rw [if_pos hsame]
      exact List.nodup_cons.2 ⟨hhead, hrest⟩
    · rw [if_neg hsame, List.map_cons, List.nodup_cons]
      refine ⟨fun hmem ↦ ?_, ih hrest⟩
      obtain ⟨e, he, heq⟩ := List.mem_map.1 hmem
      rcases (putInto_insertInOrder hrest e).1 he with rfl | ⟨-, he⟩
      · exact hsame (KeyType.same_iff.2 heq)
      · exact hhead (List.mem_map.2 ⟨e, he, heq⟩)

/-- The keys ascend. -/
def Ascends (map : List (k.Carrier × α)) : Prop :=
  map.Pairwise fun e e' ↦ k.less e.1 e'.1 = true

theorem Ascends.nodup (h : Ascends map) : (map.map (·.1)).Nodup := by
  refine List.pairwise_map.2 (h.imp fun hless heq ↦ ?_)
  rw [heq] at hless
  exact KeyType.less_irrefl hless

theorem Ascends.ne_of_less {head : k.Carrier × α} (h : Ascends (head :: map))
    (hless : k.less key head.1 = true) : ∀ e ∈ head :: map, e.1 ≠ key := by
  rintro e he rfl
  rcases List.mem_cons.1 he with rfl | he
  · exact KeyType.less_irrefl hless
  · exact KeyType.less_irrefl (KeyType.less_trans hless ((List.pairwise_cons.1 h).1 e he))

theorem putInto_insertSorted (h : Ascends map) :
    PutInto map (key, a) (insertSorted k key a map) := by
  induction map with
  | nil => exact .front fun e he ↦ absurd he List.not_mem_nil
  | cons head rest ih =>
    obtain ⟨key', a'⟩ := head
    obtain ⟨hhead, hrest⟩ := List.pairwise_cons.1 h
    rw [insertSorted]
    by_cases hsame : k.same key key' = true
    · obtain rfl := KeyType.same_iff.1 hsame
      rw [if_pos hsame]
      refine .replace rfl fun e he heq ↦ KeyType.less_irrefl (a := key) ?_
      have hless := hhead e he
      rwa [show e.1 = key from heq] at hless
    · rw [if_neg hsame]
      by_cases hless : k.less key key' = true
      · rw [if_pos hless]
        exact .front (h.ne_of_less hless)
      · rw [if_neg hless]
        exact .cons (fun heq ↦ hsame (KeyType.same_iff.2 heq.symm)) (ih hrest)

theorem ascends_insertSorted (h : Ascends map) : Ascends (insertSorted k key a map) := by
  induction map with
  | nil => exact List.pairwise_singleton _ _
  | cons head rest ih =>
    obtain ⟨key', a'⟩ := head
    obtain ⟨hhead, hrest⟩ := List.pairwise_cons.1 h
    rw [insertSorted]
    by_cases hsame : k.same key key' = true
    · obtain rfl := KeyType.same_iff.1 hsame
      rw [if_pos hsame]
      exact List.pairwise_cons.2 ⟨hhead, hrest⟩
    · have hkey : key ≠ key' := fun heq ↦ hsame (KeyType.same_iff.2 heq)
      rw [if_neg hsame]
      by_cases hless : k.less key key' = true
      · rw [if_pos hless]
        refine List.pairwise_cons.2 ⟨fun e he ↦ ?_, h⟩
        rcases List.mem_cons.1 he with rfl | he
        · exact hless
        · exact KeyType.less_trans hless (hhead e he)
      · rw [if_neg hless]
        refine List.pairwise_cons.2 ⟨fun e he ↦ ?_, ih hrest⟩
        rcases (putInto_insertSorted hrest e).1 he with rfl | ⟨-, he⟩
        · exact KeyType.less_of_not_less hkey hless
        · exact hhead e he

/-! ## Putting in all pairs -/

theorem keepsLast_insertInOrder (pairs : List (k.Carrier × α)) :
    KeepsLast pairs (pairs.foldl (fun m e ↦ insertInOrder k e.1 e.2 m) []) := by
  induction pairs using List.reverseRecOn with
  | nil => exact keepsLast_nil
  | append_singleton pairs e ih =>
    rw [List.foldl_append]
    exact ih.put (putInto_insertInOrder ih.nodup) (nodup_insertInOrder ih.nodup)

/-- A sorted map keeps the last pair of each key, and its keys ascend. -/
theorem keepsLast_insertSorted (pairs : List (k.Carrier × α)) :
    KeepsLast pairs (pairs.foldl (fun m e ↦ insertSorted k e.1 e.2 m) []) ∧
      Ascends (pairs.foldl (fun m e ↦ insertSorted k e.1 e.2 m) []) := by
  induction pairs using List.reverseRecOn with
  | nil => exact ⟨keepsLast_nil, List.Pairwise.nil⟩
  | append_singleton pairs e ih =>
    obtain ⟨hkeeps, hascends⟩ := ih
    rw [List.foldl_append]
    have hascends' : Ascends (insertSorted k e.1 e.2 _) := ascends_insertSorted hascends
    exact ⟨hkeeps.put (putInto_insertSorted hascends) hascends'.nodup, hascends'⟩

end

/-! ## Maps from values -/

namespace NativeType

variable {k : KeyType} {t : NativeType} {es : List (Value × Value)}

/-- The key and the value of a pair, as those of a native map. -/
def Converts (k : KeyType) (t : NativeType) (e : Value × Value) (pair : k.Carrier × t.Carrier) :
    Prop :=
  k.fromValue e.1 = .ok pair.1 ∧ t.fromValue e.2 = .ok pair.2

theorem mapFrom_eq_ok {α β : Type} {key : Value → Except ValueError α}
    {value : Value → Except ValueError β} {put : α → β → List (α × β) → List (α × β)}
    {map : List (α × β)} : mapFrom key value put (.map es) = .ok map ↔
      ∃ pairs : List (α × β),
        List.Forall₂ (fun e pair ↦ key e.1 = .ok pair.1 ∧ value e.2 = .ok pair.2) es pairs ∧
        pairs.foldl (fun m pair ↦ put pair.1 pair.2 m) [] = map := by
  rw [mapFrom, bind_eq_ok]
  refine exists_congr fun pairs ↦ ?_
  rw [mapM_eq_ok, pure_eq_ok, Except.ok.injEq]
  refine and_congr_left fun _ ↦ ?_
  simp [bind_eq_ok, Prod.ext_iff]

/-- **Native maps keep the last pair of each key.** If all pairs of a list can be converted, they
make a map of either kind, which holds each key once, with the value of its last pair. The keys of a
sorted map ascend. -/
theorem keepsLast_of_pairs {pairs : List (k.Carrier × t.Carrier)}
    (h : List.Forall₂ (Converts k t) es pairs) :
    (∃ map, (sortedMap k t).fromValue (.map es) = .ok map ∧ KeepsLast pairs map ∧ Ascends map) ∧
      ∃ map, (hashedMap k t).fromValue (.map es) = .ok map ∧ KeepsLast pairs map := by
  obtain ⟨hsorted, hascends⟩ := keepsLast_insertSorted pairs
  exact ⟨⟨_, mapFrom_eq_ok.2 ⟨pairs, h, rfl⟩, hsorted, hascends⟩, _,
    mapFrom_eq_ok.2 ⟨pairs, h, rfl⟩, keepsLast_insertInOrder pairs⟩

theorem exists_pairs_of_fromValue {map : List (k.Carrier × t.Carrier)}
    (h : (sortedMap k t).fromValue (.map es) = .ok map ∨
      (hashedMap k t).fromValue (.map es) = .ok map) :
    ∃ pairs, List.Forall₂ (Converts k t) es pairs ∧ KeepsLast pairs map := by
  rcases h with h | h
  · obtain ⟨pairs, hpairs, rfl⟩ := mapFrom_eq_ok.1 h
    exact ⟨pairs, hpairs, (keepsLast_insertSorted pairs).1⟩
  · obtain ⟨pairs, hpairs, rfl⟩ := mapFrom_eq_ok.1 h
    exact ⟨pairs, hpairs, keepsLast_insertInOrder pairs⟩

end NativeType

end ProtoSchema
