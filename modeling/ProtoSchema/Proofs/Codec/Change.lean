import ProtoSchema.Proofs.Codec.Decoding
import ProtoSchema.Proofs.Codec.Inversion

/-!
# What records bring to a field

A record that changes a field brings one of four things: a single value, a run of elements, a map
entry with a value of its own, or a map entry in which no value stands and which holds the zero of
its type instead. All values but the last kind were accepted by the reader of elements.
-/

set_option autoImplicit false

namespace ProtoSchema

open Wire

section

variable (p : Plan) (reg : Registry) (nested : NestedReader)

/-- The reader of the field's elements accepts the value somewhere. -/
def Plan.Accepts (v : Value) : Prop :=
  ∃ input rest, (readElement reg nested p input).result = .ok (.accepted v, rest)

/-- The record at the front of the input is framed as a map entry in which no value stands. -/
def Plan.LacksValue (input : Bytes) : Prop :=
  ∃ tag afterTag frame rest pieces, Tag.decode input = .ok (tag, afterTag) ∧
    readLengthDelimited afterTag = .ok (frame, rest) ∧
    (readAll (readEntryPiece reg nested p (p.field.mapKey.getD .string)) frame).result
      = .ok pieces ∧ lastValue? pieces = none

/-- What the record at the front of the input may bring to the field. -/
inductive Plan.Brings (input : Bytes) : Change → Prop
  | set {v : Value} (hc : p.field.cardinality = .required ∨ p.field.cardinality = .optional)
      (hv : p.Accepts reg nested v) : Brings input (.set v)
  | append {vs : List Value} (hc : p.field.cardinality = .repeated)
      (hvs : ∀ v ∈ vs, p.Accepts reg nested v) : Brings input (.append vs)
  | insert {key v : Value} (hc : p.field.cardinality = .map)
      (hholds : ¬p.LacksValue reg nested input) (hv : p.Accepts reg nested v)
      (hkey : key.kind? = some (p.field.mapKey.getD .string).kind) : Brings input (.insert key v)
  | insertZero {key v : Value} (hc : p.field.cardinality = .map)
      (hlacks : p.LacksValue reg nested input) (hv : (zeroElement reg nested p).result = .ok v)
      (hkey : key.kind? = some (p.field.mapKey.getD .string).kind) : Brings input (.insert key v)

end

/-! ## What readers bring

The pieces of an entry are looked through from its end, so a key or a value that is found is one of
the pieces, and stands in the entry where its reader took it. Zeros stand nowhere. -/

variable {reg : Registry} {nested : NestedReader} {p : Plan}

theorem mem_of_lastKey? {pieces : List EntryPiece} {key : Value} (h : lastKey? pieces = some key) :
    .key key ∈ pieces := by
  obtain ⟨piece, hpiece, hkey⟩ := List.exists_of_findSome?_eq_some h
  cases piece <;> cases hkey
  exact List.mem_reverse.1 hpiece

theorem mem_of_lastValue? {pieces : List EntryPiece} {v : Value} (h : lastValue? pieces = some v) :
    .value v ∈ pieces := by
  obtain ⟨piece, hpiece, hv⟩ := List.exists_of_findSome?_eq_some h
  cases piece <;> cases hv
  exact List.mem_reverse.1 hpiece

theorem readEntry_eq_some {s : Scalar} {frame : Bytes} {key v : Value}
    (h : (readEntry reg nested p s frame).result = .ok (some (key, v))) :
    key.kind? = some s.kind ∧
      ∃ pieces, (readAll (readEntryPiece reg nested p s) frame).result = .ok pieces ∧
        (lastValue? pieces = some v ∧ p.Accepts reg nested v ∨
          lastValue? pieces = none ∧ (zeroElement reg nested p).result = .ok v) := by
  obtain ⟨pieces, hpieces, -, hentry⟩ := readEntry_eq_ok h
  obtain ⟨rfl, hv⟩ := hentry key v rfl
  have hread : ∀ piece ∈ pieces, ∃ tag afterTag rest,
      piece.ReadsAs reg nested p s tag afterTag rest := by
    intro piece hpiece
    obtain ⟨input, rest, hstep⟩ := exists_step_of_mem_readAll hpieces hpiece
    obtain ⟨tag, afterTag, -, hread⟩ := readEntryPiece_eq_ok hstep
    exact ⟨tag, afterTag, rest, hread⟩
  refine ⟨?_, pieces, hpieces, hv.imp (fun hlast ↦ ⟨hlast, ?_⟩) id⟩
  · cases hlast : lastKey? pieces with
    | none => exact s.kind?_zero
    | some k =>
      obtain ⟨_, _, _, hread⟩ := hread _ (mem_of_lastKey? hlast)
      cases hread with
      | key _ _ hk => exact (Scalar.exists_payload_of_read hk).1
  · obtain ⟨_, afterTag, rest, hread⟩ := hread _ (mem_of_lastValue? hlast)
    cases hread with
    | value _ _ hv => exact ⟨afterTag, rest, hv⟩

namespace MessageMarshaller

variable {m : MessageMarshaller} {k : Nat} {tag : Tag} {input afterTag rest : Bytes} {e : Effect}
  {c : Change}

/-- An entry brings what its reader made of it, and whether a value stands in it can be seen from
the record. -/
theorem brings_of_readEntry (ht : Tag.decode input = .ok (tag, afterTag))
    (hc : p.field.cardinality = .map) {frame : Bytes}
    (hframe : readLengthDelimited afterTag = .ok (frame, rest)) {key v : Value}
    (hentry : (readEntry reg nested p (p.field.mapKey.getD .string) frame).result
      = .ok (some (key, v))) : p.Brings reg nested input (.insert key v) := by
  obtain ⟨hkey, pieces, hpieces, ⟨hlast, hv⟩ | ⟨hnone, hv⟩⟩ := readEntry_eq_some hentry
  · refine .insert hc ?_ hv hkey
    rintro ⟨_, _, _, _, _, ht', hframe', hpieces', hnone⟩
    rw [ht] at ht'
    cases ht'
    rw [hframe] at hframe'
    cases hframe'
    rw [hpieces] at hpieces'
    cases hpieces'
    rw [hlast] at hnone
    cases hnone
  · have hlacks : p.LacksValue reg nested input :=
      ⟨tag, afterTag, frame, rest, pieces, ht, hframe, hpieces, hnone⟩
    exact .insertZero hc hlacks hv hkey

/-- **Records bring what their field takes.** A record that changes a field brings to it what it may
bring. -/
theorem brings_of_readRecord (h : (m.readRecord reg nested input).result = .ok (e, rest))
    (he : e.change = some (k, c)) :
    ∃ p, m.plans[k]? = some p ∧ p.Brings reg nested input c := by
  obtain ⟨tag, afterTag, ht, ⟨-, rfl, -⟩ | ⟨i, p, hp, hread⟩⟩ := readRecord_eq_ok h
  · cases he
  · have hget := (plan?_eq_some hp).1
    cases hread with
    | entry hc _ hframe hentry =>
      cases he
      exact ⟨p, hget, brings_of_readEntry ht hc hframe hentry⟩
    | packed hc _ _ _ hreadings =>
      cases he
      refine ⟨p, hget, .append hc fun v hv ↦ ?_⟩
      obtain ⟨reading, hreading, hv⟩ := List.mem_filterMap.1 hv
      cases reading <;> cases hv
      exact exists_step_of_mem_readAll hreadings hreading
    | element hc _ hread =>
      cases he
      refine ⟨p, hget, .append hc fun w hw ↦ ?_⟩
      rw [List.mem_singleton.1 hw]
      exact ⟨_, _, hread⟩
    | single hc _ hread =>
      cases he
      exact ⟨p, hget, .set hc ⟨_, _, hread⟩⟩
    | spoiledEntry | rejected => cases he

end MessageMarshaller

end ProtoSchema
