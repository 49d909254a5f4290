import Mathlib.Data.List.Nodup
import ProtoSchema.Proofs.Value.Maps
import ProtoSchema.Proofs.Value.Shape

/-!
# Native values and back

What crosses between native values and values of the wire comes back, in both directions, whatever
the native types are made of. Two things are lost on the way. An open enum tells a number that it
declares from any other, so a declared number that was held as an unknown one comes back as the
declared value. And a native map holds each key once, so of the pairs with one key the last is kept.

Both directions go by induction on the native type. A map that holds each key once is put together
again by its own pairs, because each of them finds its place at the end of those before it.
-/

set_option autoImplicit false

namespace ProtoSchema

/-! ## Maps that are put together again

The pairs of a map come in the order in which the map keeps them, so each one is put behind those
before it. -/

section

variable {α : Type} {k : KeyType} {key : k.Carrier} {a : α} {map : List (k.Carrier × α)}

theorem insertInOrder_of_new (h : ∀ e ∈ map, e.1 ≠ key) :
    insertInOrder k key a map = map ++ [(key, a)] := by
  induction map with
  | nil => rfl
  | cons head rest ih =>
    obtain ⟨hhead, hrest⟩ := List.forall_mem_cons.1 h
    have hsame : ¬k.same key head.1 = true := fun heq ↦ hhead (KeyType.same_iff.1 heq).symm
    rw [insertInOrder, if_neg hsame, ih hrest]
    rfl

theorem insertSorted_of_less (h : ∀ e ∈ map, k.less e.1 key = true) :
    insertSorted k key a map = map ++ [(key, a)] := by
  induction map with
  | nil => rfl
  | cons head rest ih =>
    obtain ⟨hhead, hrest⟩ := List.forall_mem_cons.1 h
    have hsame : ¬k.same key head.1 = true := by
      intro heq
      rw [KeyType.same_iff.1 heq] at hhead
      exact KeyType.less_irrefl hhead
    have hless : ¬k.less key head.1 = true :=
      fun hless ↦ KeyType.less_irrefl (KeyType.less_trans hless hhead)
    rw [insertSorted, if_neg hsame, if_neg hless, ih hrest]
    rfl

theorem foldl_insertInOrder_of_nodup (h : (map.map (·.1)).Nodup) :
    map.foldl (fun m e ↦ insertInOrder k e.1 e.2 m) [] = map := by
  induction map using List.reverseRecOn with
  | nil => rfl
  | append_singleton map e ih =>
    rw [List.map_append, List.nodup_append] at h
    obtain ⟨hmap, -, hne⟩ := h
    rw [List.foldl_append, ih hmap]
    exact insertInOrder_of_new fun e' he' ↦
      hne e'.1 (List.mem_map_of_mem he') e.1 List.mem_cons_self

theorem Ascends.foldl_insertSorted (h : Ascends map) :
    map.foldl (fun m e ↦ insertSorted k e.1 e.2 m) [] = map := by
  induction map using List.reverseRecOn with
  | nil => rfl
  | append_singleton map e ih =>
    obtain ⟨hmap, -, hless⟩ := List.pairwise_append.1 h
    rw [List.foldl_append, ih hmap]
    exact insertSorted_of_less fun e' he' ↦ hless e' he' e List.mem_cons_self

end

/-! ## The last pairs of a key, before and after a conversion

Converting a pair does not bring its key together with another one, so the last pair of a key is
converted to a last one. -/

section

variable {K L α β : Type}

theorem IsLast.unique {pairs : List (K × α)} {e e' : K × α} (h : IsLast pairs e)
    (h' : IsLast pairs e') (hkey : e.1 = e'.1) : e = e' := by
  induction pairs using List.reverseRecOn with
  | nil =>
    obtain ⟨front, back, heq, -⟩ := h
    exact absurd heq.symm (List.append_ne_nil_of_right_ne_nil _ (List.cons_ne_nil _ _))
  | append_singleton pairs last ih =>
    rcases isLast_append_singleton.1 h with rfl | ⟨hne, h⟩ <;>
      rcases isLast_append_singleton.1 h' with rfl | ⟨hne', h'⟩
    · rfl
    · exact absurd hkey.symm hne'
    · exact absurd hkey hne
    · exact ih h h'

theorem IsLast.exists_of_forall₂ {r : K × α → L × β → Prop} {es : List (K × α)}
    {pairs : List (L × β)} {p : L × β}
    (hkey : ∀ {e e' p p'}, r e p → r e' p' → e.1 = e'.1 → p.1 = p'.1)
    (h : List.Forall₂ r es pairs) (hp : IsLast pairs p) : ∃ e, r e p ∧ IsLast es e := by
  obtain ⟨front, back, rfl, hback⟩ := hp
  obtain ⟨e, rest, he, hrest, heq⟩ :=
    List.forall₂_cons_right_iff.1 (List.forall₂_drop_append es front (p :: back) h)
  refine ⟨e, he, es.take front.length, rest, ?_, fun later hlater hsame ↦ ?_⟩
  · rw [← heq, List.take_append_drop]
  · obtain ⟨later', hlater', hr⟩ := exists_of_forall₂_left hrest hlater
    exact hback later' hlater' (hkey hr he hsame)

theorem KeepsLast.exists_of_forall₂ {r : K × α → L × β → Prop} {es : List (K × α)}
    {pairs map : List (L × β)}
    (hkey : ∀ {e e' p p'}, r e p → r e' p' → (e.1 = e'.1 ↔ p.1 = p'.1))
    (h : List.Forall₂ r es pairs) (hmap : KeepsLast pairs map) :
    ∃ kept, KeepsLast es kept ∧ List.Forall₂ r kept map := by
  have hlast : ∀ p ∈ map, ∃ e, r e p ∧ IsLast es e := fun p hp ↦
    IsLast.exists_of_forall₂ (fun he he' ↦ (hkey he he').1) h ((hmap.mem p).1 hp)
  obtain ⟨kept, hkept⟩ := exists_forall₂ hlast
  have hrelated : List.Forall₂ r kept map := hkept.flip.imp fun e p hep ↦ hep.1
  refine ⟨kept, ⟨?_, fun e ↦ ⟨fun he ↦ ?_, fun he ↦ ?_⟩⟩, hrelated⟩
  · have hunique : Relator.BiUnique fun a b ↦ ∃ e p, r e p ∧ e.1 = a ∧ p.1 = b := by
      constructor
      · rintro _ _ _ ⟨e, p, he, rfl, rfl⟩ ⟨e', p', he', rfl, heq⟩
        exact (hkey he he').2 heq.symm
      · rintro _ _ _ ⟨e, p, he, rfl, rfl⟩ ⟨e', p', he', heq, rfl⟩
        exact (hkey he he').1 heq.symm
    refine (List.rel_nodup hunique ?_).2 hmap.nodup
    rw [List.forall₂_map_left_iff, List.forall₂_map_right_iff]
    exact hrelated.imp fun e p hep ↦ ⟨e, p, hep, rfl, rfl⟩
  · obtain ⟨p, -, -, he⟩ := exists_of_forall₂_right hkept he
    exact he
  · obtain ⟨p, hep, hp⟩ := IsLast.exists_of_forall₂ (r := flip r)
      (fun he he' ↦ (hkey he he').2) h.flip he
    obtain ⟨e', he', hr, hlast'⟩ := exists_of_forall₂_left hkept ((hmap.mem p).2 hp)
    rwa [← hlast'.unique he ((hkey hr hep).2 rfl)]

end

theorem KeyType.toValue_injective (k : KeyType) : Function.Injective k.toValue := by
  intro a b h
  have hb := k.fromValue_toValue b
  rw [← h, k.fromValue_toValue] at hb
  exact Except.ok.inj hb

/-! ## What is asked of native values, and what becomes of them -/

namespace NativeType

/-- The values of every enum in the type have different numbers. -/
def DistinctNumbers : NativeType → Prop
  | closedEnum e | openEnum e => e.numbers.Nodup
  | optional t | boxed t | list t | sortedMap _ t | hashedMap _ t => t.DistinctNumbers
  | _ => True

/-- The maps in a native value are what native maps are: the keys of a sorted map ascend, and those
of a hashed map are different. -/
def Canonical : (t : NativeType) → t.Carrier → Prop
  | optional t, x => ∀ a, x = some a → t.Canonical a
  | boxed t, x => t.Canonical x
  | list t, xs => ∀ a ∈ xs, t.Canonical a
  | sortedMap _ t, m => Ascends m ∧ ∀ e ∈ m, t.Canonical e.2
  | hashedMap _ t, m => (m.map (·.1)).Nodup ∧ ∀ e ∈ m, t.Canonical e.2
  | _, _ => True

/-- Nothing is missing anywhere in a native value. -/
def Filled : (t : NativeType) → t.Carrier → Prop
  | optional t, x => ∃ a, x = some a ∧ t.Filled a
  | boxed t, x => t.Filled x
  | list t, xs => ∀ a ∈ xs, t.Filled a
  | sortedMap _ t, m | hashedMap _ t, m => ∀ e ∈ m, t.Filled e.2
  | _, _ => True

/-- What a native value comes back as: itself, but for the numbers that an open enum holds as
unknown ones although it declares them. -/
def ComesBackAs : (t : NativeType) → t.Carrier → t.Carrier → Prop
  | openEnum _, .inl a, y => y = .inl a
  | openEnum e, .inr n, y =>
    (∃ a, e.number a = n ∧ y = .inl a) ∨ (∀ a, e.number a ≠ n) ∧ y = .inr n
  | optional t, x, y => Option.Rel t.ComesBackAs x y
  | boxed t, x, y => t.ComesBackAs x y
  | list t, xs, ys => List.Forall₂ t.ComesBackAs xs ys
  | sortedMap _ t, m, m' | hashedMap _ t, m, m' =>
    List.Forall₂ (fun e e' ↦ e.1 = e'.1 ∧ t.ComesBackAs e.2 e'.2) m m'
  | _, x, y => x = y

/-- No open enum in a native value holds a number that it declares as an unknown one. -/
def Recognized : (t : NativeType) → t.Carrier → Prop
  | openEnum e, x => ∀ n, x = .inr n → ∀ a, e.number a ≠ n
  | optional t, x => ∀ a, x = some a → t.Recognized a
  | boxed t, x => t.Recognized x
  | list t, xs => ∀ a ∈ xs, t.Recognized a
  | sortedMap _ t, m | hashedMap _ t, m => ∀ e ∈ m, t.Recognized e.2
  | _, _ => True

/-- What a value comes back as: itself, but for maps, of which the last pair of each key is kept, in
the order of the keys if the map is sorted. -/
def KeepsLastPairs : NativeType → Value → Value → Prop
  | optional t, v, w | boxed t, v, w => t.KeepsLastPairs v w
  | list t, v, w => ∃ vs ws, v = .list vs ∧ w = .list ws ∧ List.Forall₂ t.KeepsLastPairs vs ws
  | sortedMap k t, v, w => ∃ es kept ds, v = .map es ∧ w = .map ds ∧ KeepsLast es kept ∧
    List.Forall₂ (fun e d ↦ e.1 = d.1 ∧ t.KeepsLastPairs e.2 d.2) kept ds ∧
    ∃ keys : List k.Carrier, ds.map (·.1) = keys.map k.toValue ∧
      keys.Pairwise fun a b ↦ k.less a b = true
  | hashedMap _ t, v, w => ∃ es kept ds, v = .map es ∧ w = .map ds ∧ KeepsLast es kept ∧
    List.Forall₂ (fun e d ↦ e.1 = d.1 ∧ t.KeepsLastPairs e.2 d.2) kept ds
  | _, v, w => v = w

end NativeType

/-! ## There and back

Both directions follow the native type. Nothing is compared but members of lists and pairs of
maps. -/

theorem NativeEnum.ofNumber?_number {e : NativeEnum} (h : e.numbers.Nodup) (a : e.Known) :
    e.ofNumber? (e.number a) = some a := by
  obtain ⟨b, hb⟩ := e.exists_ofNumber? a
  rw [hb, List.nodup_iff_injective_get.1 h (number_of_ofNumber? hb)]

namespace NativeType

variable {k : KeyType} {t : NativeType}

theorem exists_pairs_of_entries {m : List (k.Carrier × t.Carrier)}
    (h : ∀ e ∈ m, ∃ a, t.fromValue (t.toValue e.2) = .ok a ∧ t.ComesBackAs e.2 a) :
    ∃ m', List.Forall₂ (Converts k t) (m.map fun (key, a) ↦ (k.toValue key, t.toValue a)) m' ∧
      List.Forall₂ (fun e e' ↦ e.1 = e'.1 ∧ t.ComesBackAs e.2 e'.2) m m' ∧
      m'.map (·.1) = m.map (·.1) := by
  have hpair : ∀ e ∈ m, ∃ e' : k.Carrier × t.Carrier,
      Converts k t (k.toValue e.1, t.toValue e.2) e' ∧ e.1 = e'.1 ∧ t.ComesBackAs e.2 e'.2 := by
    intro e he
    obtain ⟨a, ha, hback⟩ := h e he
    exact ⟨(e.1, a), ⟨k.fromValue_toValue e.1, ha⟩, rfl, hback⟩
  obtain ⟨m', hm'⟩ := exists_forall₂ hpair
  refine ⟨m', ?_, hm'.imp fun e e' he ↦ he.2, ?_⟩
  · rw [List.forall₂_map_left_iff]
    exact hm'.imp fun e e' he ↦ he.1
  · rw [← List.forall₂_eq_eq_eq, List.forall₂_map_left_iff, List.forall₂_map_right_iff]
    exact hm'.flip.imp fun e' e he ↦ he.2.1.symm

/-- **Native values come back.** -/
theorem exists_comesBackAs (t : NativeType) (ht : t.DistinctNumbers) (x : t.Carrier)
    (hcanonical : t.Canonical x) (hfilled : t.Filled x) :
    ∃ y, t.fromValue (t.toValue x) = .ok y ∧ t.ComesBackAs x y := by
  induction t with
  | plain k => exact ⟨x, k.fromValue_toValue x, rfl⟩
  | f32 | f64 => exact ⟨x, rfl, rfl⟩
  | message type => exact ⟨x, dif_pos x.2, rfl⟩
  | closedEnum e =>
    refine ⟨x, ?_, rfl⟩
    rw [toValue, fromValue]
    simp only [NativeEnum.ofNumber?_number ht x]
  | openEnum e =>
    cases x with
    | inl a =>
      refine ⟨.inl a, ?_, rfl⟩
      rw [toValue, fromValue]
      simp only [NativeEnum.ofNumber?_number ht a]
    | inr n =>
      rw [toValue, fromValue]
      cases hn : e.ofNumber? n with
      | some a => exact ⟨.inl a, rfl, .inl ⟨a, NativeEnum.number_of_ofNumber? hn, rfl⟩⟩
      | none =>
        refine ⟨.inr n, rfl, .inr ⟨?_, rfl⟩⟩
        rintro a rfl
        obtain ⟨b, hb⟩ := e.exists_ofNumber? a
        cases hn.symm.trans hb
  | optional t ih =>
    obtain ⟨a, rfl, ha⟩ := hfilled
    obtain ⟨b, hb, hback⟩ := ih ht a (hcanonical a rfl) ha
    exact ⟨some b, map_eq_ok.2 ⟨b, hb, rfl⟩, .some hback⟩
  | boxed t ih => exact ih ht x hcanonical hfilled
  | list t ih =>
    obtain ⟨ys, hys⟩ := exists_forall₂ fun a ha ↦ ih ht a (hcanonical a ha) (hfilled a ha)
    refine ⟨ys, mapM_eq_ok.2 ?_, hys.imp fun a b h ↦ h.2⟩
    rw [List.forall₂_map_left_iff]
    exact hys.imp fun a b h ↦ h.1
  | sortedMap k t ih =>
    obtain ⟨hascends, hcanonical⟩ := hcanonical
    obtain ⟨m', hconverts, hback, hkeys⟩ := exists_pairs_of_entries fun e he ↦
      ih ht e.2 (hcanonical e he) (hfilled e he)
    have hascends' : Ascends m' := by
      rw [Ascends, ← List.pairwise_map (R := fun a b ↦ k.less a b = true), hkeys, List.pairwise_map]
      exact hascends
    exact ⟨m', mapFrom_eq_ok.2 ⟨m', hconverts, hascends'.foldl_insertSorted⟩, hback⟩
  | hashedMap k t ih =>
    obtain ⟨hnodup, hcanonical⟩ := hcanonical
    obtain ⟨m', hconverts, hback, hkeys⟩ := exists_pairs_of_entries fun e he ↦
      ih ht e.2 (hcanonical e he) (hfilled e he)
    rw [← hkeys] at hnodup
    exact ⟨m', mapFrom_eq_ok.2 ⟨m', hconverts, foldl_insertInOrder_of_nodup hnodup⟩,
      hback⟩

theorem eq_of_forall₂ {α : Type} {r : α → α → Prop} {xs ys : List α} (h : List.Forall₂ r xs ys)
    (heq : ∀ a ∈ xs, ∀ b, r a b → b = a) : ys = xs := by
  have hboth := (List.forall₂_and_left xs ys).2 ⟨heq, h⟩
  rw [← List.forall₂_eq_eq_eq]
  exact hboth.flip.imp fun b a hab ↦ hab.1 b hab.2

theorem ComesBackAs.eq {t : NativeType} {x y : t.Carrier} (h : t.ComesBackAs x y)
    (hx : t.Recognized x) : y = x := by
  induction t with
  | plain | f32 | f64 | message | closedEnum => exact h.symm
  | openEnum e =>
    cases x with
    | inl a => exact h
    | inr n =>
      rcases h with ⟨a, ha, -⟩ | ⟨-, hy⟩
      · exact absurd ha (hx n rfl a)
      · exact hy
  | optional t ih =>
    cases h with
    | none => rfl
    | some h => exact congrArg some (ih h (hx _ rfl))
  | boxed t ih => exact ih h hx
  | list t ih => exact eq_of_forall₂ h fun a ha b hab ↦ ih hab (hx a ha)
  | sortedMap k t ih | hashedMap k t ih =>
    exact eq_of_forall₂ h fun e he e' hee' ↦ Prod.ext hee'.1.symm (ih hee'.2 (hx e he))

theorem exists_kept_of_pairs {es : List (Value × Value)} {pairs m : List (k.Carrier × t.Carrier)}
    (hvalue : ∀ {v x}, t.fromValue v = .ok x → t.KeepsLastPairs v (t.toValue x))
    (hpairs : List.Forall₂ (Converts k t) es pairs) (hm : KeepsLast pairs m) :
    ∃ kept, KeepsLast es kept ∧ List.Forall₂ (fun e d ↦ e.1 = d.1 ∧ t.KeepsLastPairs e.2 d.2) kept
      (m.map fun (key, a) ↦ (k.toValue key, t.toValue a)) := by
  have hkey : ∀ {e : Value × Value} {p : k.Carrier × t.Carrier}, Converts k t e p →
      e.1 = k.toValue p.1 := fun h ↦ KeyType.eq_toValue_of_fromValue h.1
  obtain ⟨kept, hkept, hrelated⟩ := hm.exists_of_forall₂ (r := Converts k t)
    (fun he he' ↦ by rw [hkey he, hkey he', k.toValue_injective.eq_iff]) hpairs
  refine ⟨kept, hkept, ?_⟩
  rw [List.forall₂_map_right_iff]
  exact hrelated.imp fun e p h ↦ ⟨hkey h, hvalue h.2⟩

/-- **Values come back** with the last pair of each key. -/
theorem keepsLastPairs_of_fromValue {t : NativeType} {v : Value} {x : t.Carrier}
    (h : t.fromValue v = .ok x) : t.KeepsLastPairs v (t.toValue x) := by
  induction t generalizing v with
  | plain k => exact KeyType.eq_toValue_of_fromValue h
  | f32 | f64 =>
    cases v <;> cases h
    rfl
  | message type =>
    cases v <;> try cases h
    next i =>
      rw [fromValue] at h
      split at h <;> cases h
      rfl
  | closedEnum e =>
    cases v <;> try cases h
    next n =>
      rw [fromValue] at h
      split at h <;> cases h
      next a ha => exact congrArg Value.enum (NativeEnum.number_of_ofNumber? ha).symm
  | openEnum e =>
    cases v <;> try cases h
    next n =>
      rw [fromValue] at h
      split at h <;> cases h
      · next a ha => exact congrArg Value.enum (NativeEnum.number_of_ofNumber? ha).symm
      · rfl
  | optional t ih =>
    obtain ⟨a, ha, rfl⟩ := map_eq_ok.1 h
    exact ih ha
  | boxed t ih => exact ih h
  | list t ih =>
    cases v <;> try cases h
    next vs =>
      refine ⟨vs, x.map t.toValue, rfl, rfl, ?_⟩
      rw [List.forall₂_map_right_iff]
      exact (mapM_eq_ok.1 h).imp fun v a ha ↦ ih ha
  | sortedMap k t ih =>
    cases v <;> try cases h
    next es =>
      obtain ⟨pairs, hpairs, rfl⟩ := mapFrom_eq_ok.1 h
      obtain ⟨hkeeps, hascends⟩ := keepsLast_insertSorted pairs
      obtain ⟨kept, hkept, hvalues⟩ := exists_kept_of_pairs ih hpairs hkeeps
      refine ⟨es, kept, _, rfl, rfl, hkept, hvalues, _, ?_, List.pairwise_map.2 hascends⟩
      rw [List.map_map, List.map_map]
      rfl
  | hashedMap k t ih =>
    cases v <;> try cases h
    next es =>
      obtain ⟨pairs, hpairs, rfl⟩ := mapFrom_eq_ok.1 h
      obtain ⟨kept, hkept, hvalues⟩ :=
        exists_kept_of_pairs ih hpairs (keepsLast_insertInOrder pairs)
      exact ⟨es, kept, _, rfl, rfl, hkept, hvalues⟩

/-- **The bridge between native values and values is faithful**, whatever the native type is made
of. A native value in which nothing is missing comes back from its value, as the same one if it
holds no declared number as an unknown one. And a value that can be converted comes back from its
native value, with the last pair of each key in its maps. -/
theorem bridge_faithful (t : NativeType) :
    (t.DistinctNumbers → ∀ x, t.Canonical x → t.Filled x →
      ∃ y, t.fromValue (t.toValue x) = .ok y ∧ t.ComesBackAs x y ∧ (t.Recognized x → y = x)) ∧
    ∀ v x, t.fromValue v = .ok x → t.KeepsLastPairs v (t.toValue x) := by
  refine ⟨fun ht x hcanonical hfilled ↦ ?_, fun v x ↦ keepsLastPairs_of_fromValue⟩
  obtain ⟨y, hy, hback⟩ := exists_comesBackAs t ht x hcanonical hfilled
  exact ⟨y, hy, hback, hback.eq⟩

end NativeType

namespace Palette

def colour : NativeEnum := ⟨⟨"palette::Colour"⟩, [1, 2]⟩

/-- The colours of some rows. -/
def rows : NativeType := .boxed (.sortedMap (.boxed .i32) (.boxed (.openEnum colour)))

def filled : rows.Carrier := [(-1, .inl ⟨0, by decide⟩), (3, .inr 2), (4, .inr 9)]

/-- The enum declares the number of the third row, but not that of the fourth. -/
def recognized : rows.Carrier := [(-1, .inl ⟨0, by decide⟩), (3, .inl ⟨1, by decide⟩), (4, .inr 9)]

/-- The fourth row comes twice, and once before the third. -/
def repeating : Value := .map [(.i32 4, .enum 1), (.i32 3, .enum 2), (.i32 4, .enum 9)]

def kept : rows.Carrier := [(3, .inl ⟨1, by decide⟩), (4, .inr 9)]

end Palette

/-- A declared number is recognized, and the second entry for a row is kept. -/
theorem Palette.bridge_faithful_rows :
    (rows.DistinctNumbers ∧ rows.Canonical filled ∧ rows.Filled filled ∧
      rows.fromValue (rows.toValue filled) = .ok recognized ∧
      rows.ComesBackAs filled recognized) ∧
    rows.fromValue repeating = .ok kept ∧ rows.KeepsLastPairs repeating (rows.toValue kept) := by
  obtain ⟨hback, hkeeps⟩ := rows.bridge_faithful
  have hdistinct : rows.DistinctNumbers := show [(1 : Int32), 2].Nodup by decide
  have hcanonical : rows.Canonical filled := by
    refine ⟨.cons ?_ (.cons ?_ (List.pairwise_singleton _ _)), fun e _ ↦ trivial⟩
    · simp [KeyType.less]
    · simp [KeyType.less]
  have hfilled : rows.Filled filled := fun e _ ↦ trivial
  have hrecognized : rows.fromValue (rows.toValue filled) = .ok recognized := by rfl
  have hkept : rows.fromValue repeating = .ok kept := by rfl
  obtain ⟨y, hy, hcomes, -⟩ := hback hdistinct filled hcanonical hfilled
  cases hrecognized.symm.trans hy
  exact ⟨⟨hdistinct, hcanonical, hfilled, hrecognized, hcomes⟩, hkept, hkeeps _ _ hkept⟩

end ProtoSchema
