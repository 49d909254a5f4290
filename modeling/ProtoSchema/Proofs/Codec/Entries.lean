import ProtoSchema.Proofs.Codec.Payload
import ProtoSchema.Proofs.Codec.Reordering
import ProtoSchema.Proofs.Value.Maps

/-!
# Map entries

A map entry is a frame of records, of which those numbered 1 are keys and those numbered 2 are
values. All of them are read, so each of them has to be readable, but only the last key and the last
value count. `Plan.HoldsEntry` says so by looking at the records of the frame by their numbers; that
their order and the other records do not matter is part of its form.

The reader goes through the frame in one loop and stops at the first number that a closed enum does
not declare. Where all numbers are declared it goes to the end, and then its pieces are the records
of the frame one by one. This is the correspondence that everything here rests on.
-/

set_option autoImplicit false

namespace ProtoSchema

open Wire

/-! ## What an entry holds

A payload holds one value at most, be it of the key or of the value. So a frame holds one entry at
most, and it makes sense to speak of the entry that it holds. -/

/-- The last record of a frame that bears a number. -/
def lastOf? (number : Nat) (rs : List Record) : Option Record :=
  (rs.filter (·.number == number)).getLast?

/-- The records that a frame is cut into. -/
def recordsOf (frame : Bytes) : List Record := (split Record.decode frame).map (·.2)

namespace Plan

/-- The type of the keys of a map field. -/
def keyType (p : Plan) : Scalar := p.field.mapKey.getD .string

section

variable (p : Plan) (reg : Registry) (levels : Nat)

/-- The value that an entry holds in which no value stands. For messages it is what decoding the
empty input gives one level deeper. -/
inductive IsZero : Value → Prop
  | scalar {s : Scalar} (he : p.element = .scalar s) : IsZero s.zero
  | enum {target : TypeId} {isOpen : Bool} (he : p.element = .enum target isOpen) :
      IsZero (.enum 0)
  | message {target : TypeId} {m : MessageMarshaller} {below : Nat} {i : Instance}
      (he : p.element = .message target) (hm : reg.messageMarshaller? target = some m)
      (hlevels : levels = below + 1) (hi : (reg.decodeAt below m []).result = .ok i) :
      IsZero (.message i)

/-- A frame holds an entry: it is made up of records, its keys and values can be read, and the last
ones of them are those of the entry, or else zeros are. -/
structure HoldsEntry (frame : Bytes) (e : Value × Value) : Prop where
  complete : (split Record.decode frame).flatMap (·.1) = frame
  keys : ∀ r ∈ recordsOf frame, r.number = 1 → ∃ k, p.keyType.ofPayload? r.payload = some k
  values : ∀ r ∈ recordsOf frame, r.number = 2 →
    ∃ v, p.ReadsAs reg (reg.nestedAt levels) r.payload v
  key : match lastOf? 1 (recordsOf frame) with
    | some r => p.keyType.ofPayload? r.payload = some e.1
    | none => e.1 = p.keyType.zero
  value : match lastOf? 2 (recordsOf frame) with
    | some r => p.ReadsAs reg (reg.nestedAt levels) r.payload e.2
    | none => p.IsZero reg levels e.2

/-- All numbers in a frame that stand for values are declared. -/
def DeclaresAll (frame : Bytes) : Prop :=
  ∀ r ∈ recordsOf frame, r.number = 2 → p.rejected? reg r.payload = none

/-- The piece of an entry that a record is. -/
inductive IsPiece (r : Record) : EntryPiece → Prop
  | key {k : Value} (hn : r.number = 1) (hk : p.keyType.ofPayload? r.payload = some k) :
      IsPiece r (.key k)
  | value {v : Value} (hn : r.number = 2) (hv : p.ReadsAs reg (reg.nestedAt levels) r.payload v) :
      IsPiece r (.value v)
  | other (hkey : r.number ≠ 1) (hvalue : r.number ≠ 2) : IsPiece r .other

end

variable {p : Plan} {reg : Registry} {nested : NestedReader} {levels : Nat} {payload : Payload}
  {v w : Value}

theorem ReadsAs.undeclared?_eq (h : p.ReadsAs reg nested payload v) :
    p.undeclared? reg v = p.rejected? reg payload := by
  cases h with
  | plain hv => exact (rejected?_eq hv).symm
  | message he _ _ => simp only [undeclared?, rejected?, he]

theorem ReadsAs.wireType_eq (h : p.ReadsAs reg nested payload v) :
    payload.wireType = p.element.wireType := by
  cases h with
  | plain hv => exact Element.wireType_of_valueOf? hv
  | message he _ _ =>
    rw [he]
    rfl

theorem ReadsAs.unique (h : p.ReadsAs reg nested payload v) (h' : p.ReadsAs reg nested payload w) :
    v = w := by
  cases h with
  | plain hv =>
    cases h' with
    | plain hv' => exact Option.some.inj (hv.symm.trans hv')
    | message he _ _ =>
      rw [he] at hv
      cases hv
  | message he hm hi =>
    cases h' with
    | plain hv' =>
      rw [he] at hv'
      cases hv'
    | message he' hm' hi' =>
      cases he.symm.trans he'
      cases hm.symm.trans hm'
      cases hi.symm.trans hi'
      rfl

theorem run_nestedAt {m : MessageMarshaller} {frame : Bytes} {i : Instance} :
    ((reg.nestedAt levels).run m frame).result = .ok i ↔
      ∃ below, levels = below + 1 ∧ (reg.decodeAt below m frame).result = .ok i := by
  constructor
  · intro h
    cases levels with
    | zero => cases h
    | succ below => exact ⟨below, rfl, h⟩
  · rintro ⟨below, rfl, h⟩
    exact h

theorem zeroElement_eq_ok :
    (zeroElement reg (reg.nestedAt levels) p).result = .ok v ↔ p.IsZero reg levels v := by
  constructor
  · intro h
    unfold zeroElement at h
    split at h
    · next s he =>
      cases h
      exact .scalar he
    · next he =>
      cases h
      exact .enum he
    · next target he =>
      obtain ⟨m, hm, h⟩ := Logged.bind_eq_ok.1 h
      obtain ⟨i, hi, h⟩ := Logged.bind_eq_ok.1 h
      cases h
      obtain ⟨below, hlevels, hi⟩ := run_nestedAt.1 hi
      exact .message he (Registry.elementMarshaller_eq_ok hm) hlevels hi
  · intro h
    cases h with
    | scalar he => simp only [zeroElement, he, Logged.result_pure]
    | enum he => simp only [zeroElement, he, Logged.result_pure]
    | message he hm hlevels hi =>
      have hrun := run_nestedAt.2 ⟨_, hlevels, hi⟩
      simp only [zeroElement, he, Registry.elementMarshaller, hm, Logged.result_bind,
        Logged.result_ofExcept, ok_bind, hrun, Logged.result_pure]

theorem IsZero.unique (h : p.IsZero reg levels v) (h' : p.IsZero reg levels w) : v = w :=
  Except.ok.inj ((zeroElement_eq_ok.2 h).symm.trans (zeroElement_eq_ok.2 h'))

theorem HoldsEntry.unique {frame : Bytes} {e e' : Value × Value}
    (h : p.HoldsEntry reg levels frame e) (h' : p.HoldsEntry reg levels frame e') : e = e' := by
  refine Prod.ext ?_ ?_
  · have hkey := h.key
    have hkey' := h'.key
    cases hlast : lastOf? 1 (recordsOf frame) with
    | some r =>
      rw [hlast] at hkey hkey'
      exact Option.some.inj (hkey.symm.trans hkey')
    | none =>
      rw [hlast] at hkey hkey'
      exact Eq.trans hkey (Eq.symm hkey')
  · have hvalue := h.value
    have hvalue' := h'.value
    cases hlast : lastOf? 2 (recordsOf frame) with
    | some r =>
      rw [hlast] at hvalue hvalue'
      exact hvalue.unique hvalue'
    | none =>
      rw [hlast] at hvalue hvalue'
      exact hvalue.unique hvalue'

end Plan

/-! ## Pieces are records

A piece that is not rejected is a record of the frame, with the number that says which piece it is.
Both ways are needed: from the pieces that were read to the records, and from records to the pieces
that they will be read as. -/

section

variable {p : Plan} {reg : Registry} {levels : Nat} {input rest frame : Bytes} {r : Record}
  {piece : EntryPiece} {rs : List Record} {pieces : List EntryPiece}

theorem Plan.IsPiece.exists_key (h : p.IsPiece reg levels r piece) (hn : r.number = 1) :
    ∃ k, piece = .key k ∧ p.keyType.ofPayload? r.payload = some k := by
  cases h with
  | key _ hk => exact ⟨_, rfl, hk⟩
  | value hvalue _ => omega
  | other hkey _ => exact absurd hn hkey

theorem Plan.IsPiece.exists_value (h : p.IsPiece reg levels r piece) (hn : r.number = 2) :
    ∃ v, piece = .value v ∧ p.ReadsAs reg (reg.nestedAt levels) r.payload v := by
  cases h with
  | key hkey _ => omega
  | value _ hv => exact ⟨_, rfl, hv⟩
  | other _ hvalue => exact absurd hn hvalue

theorem Plan.IsPiece.isRejected_eq (h : p.IsPiece reg levels r piece) :
    piece.isRejected = false := by
  cases h <;> rfl

theorem readEntryPiece_of_isPiece (hres : p.element.Resolved reg)
    (hr : Record.decode input = .ok (r, rest)) (h : p.IsPiece reg levels r piece)
    (hdeclared : r.number = 2 → p.rejected? reg r.payload = none) :
    (readEntryPiece reg (reg.nestedAt levels) p p.keyType input).result = .ok (piece, rest) := by
  obtain ⟨tag, afterTag, ht, hnumber, hpayload⟩ := Record.decode_eq_ok.1 hr
  have hw := Payload.wireType_of_decode hpayload
  cases h with
  | key hn hk =>
    have htag : tag.wireType = p.keyType.wireType :=
      hw.symm.trans (Scalar.wireType_of_ofPayload? hk)
    have hread : p.keyType.read p.field.number afterTag = .ok (_, rest) :=
      Scalar.read_eq_ok.2 ⟨r.payload, htag ▸ hpayload, hk⟩
    simp only [readEntryPiece, Logged.result_bind, result_ofWire, ht, mapError_ok, ok_bind,
      if_pos (hnumber.trans hn), Tag.expect, if_pos htag, hread, Logged.result_pure]
  | value hn hv =>
    have htag : tag.wireType = p.element.wireType := hw.symm.trans hv.wireType_eq
    have hread := (readElement_eq_accepted hres).2
      ⟨r.payload, htag ▸ hpayload, hv, hv.undeclared?_eq.trans (hdeclared hn)⟩
    have hvalue : tag.number = 2 := hnumber.trans hn
    have hkey : ¬tag.number = 1 := by omega
    simp only [readEntryPiece, Logged.result_bind, result_ofWire, ht, mapError_ok, ok_bind,
      if_neg hkey, if_pos hvalue, Tag.expect, if_pos htag, hread, Logged.result_pure]
  | other hkey hvalue =>
    rw [← hnumber] at hkey hvalue
    simp only [readEntryPiece, Logged.result_bind, result_ofWire, ht, mapError_ok, ok_bind,
      if_neg hkey, if_neg hvalue, hpayload, Logged.result_pure]

theorem exists_isPiece_of_readEntryPiece (hres : p.element.Resolved reg)
    (h : (readEntryPiece reg (reg.nestedAt levels) p p.keyType input).result = .ok (piece, rest))
    (hpiece : piece.isRejected = false) :
    ∃ r, Record.decode input = .ok (r, rest) ∧ p.IsPiece reg levels r piece := by
  obtain ⟨tag, afterTag, ht, hread⟩ := readEntryPiece_eq_ok h
  have hrecord : ∀ {payload : Payload}, Payload.decode tag.wireType afterTag = .ok (payload, rest) →
      Record.decode input = .ok (⟨tag.number, payload⟩, rest) :=
    fun hpayload ↦ Record.decode_eq_ok.2 ⟨tag, afterTag, ht, rfl, hpayload⟩
  cases hread with
  | key hn hw hread =>
    obtain ⟨payload, hpayload, hk⟩ := Scalar.read_eq_ok.1 hread
    exact ⟨_, hrecord (hw ▸ hpayload), .key hn hk⟩
  | value hn hw hread =>
    obtain ⟨payload, hpayload, hv, -⟩ := (readElement_eq_accepted hres).1 hread
    exact ⟨_, hrecord (hw ▸ hpayload), .value hn hv⟩
  | rejected => cases hpiece
  | other hkey hvalue hpayload => exact ⟨_, hrecord hpayload, .other hkey hvalue⟩

/-- The pieces of a frame without a rejected one are its records. -/
theorem records_of_readAll (hres : p.element.Resolved reg)
    (h : (readAll (readEntryPiece reg (reg.nestedAt levels) p p.keyType) frame).result = .ok pieces)
    (hpieces : pieces.any EntryPiece.isRejected = false) :
    ∃ rs, Records frame rs ∧ List.Forall₂ (p.IsPiece reg levels) rs pieces := by
  obtain ⟨trace, htrace, rfl⟩ := readAll_eq_ok.1 h
  clear h
  induction htrace with
  | nil => exact ⟨[], .nil, .nil⟩
  | cons head _ _ ih =>
    rw [List.map_cons, List.any_cons, Bool.or_eq_false_iff] at hpieces
    obtain ⟨r, hr, hpiece⟩ := exists_isPiece_of_readEntryPiece hres head hpieces.1
    obtain ⟨rs, hrs, hall⟩ := ih hpieces.2
    exact ⟨r :: rs, .cons hr hrs, .cons hpiece hall⟩
  | last _ head hlt =>
    rw [List.map_cons, List.any_cons, Bool.or_eq_false_iff] at hpieces
    obtain ⟨r, hr, -⟩ := exists_isPiece_of_readEntryPiece hres head hpieces.1
    exact absurd (Record.decode_length hr) hlt

theorem readAll_of_records (hres : p.element.Resolved reg) (hrs : Records frame rs)
    (h : List.Forall₂ (p.IsPiece reg levels) rs pieces)
    (hdeclared : ∀ r ∈ rs, r.number = 2 → p.rejected? reg r.payload = none) :
    (readAll (readEntryPiece reg (reg.nestedAt levels) p p.keyType) frame).result
      = .ok pieces := by
  induction hrs generalizing pieces with
  | nil =>
    cases h
    exact readAll_nil _
  | cons head _ ih =>
    obtain ⟨hfirst, hrest⟩ := List.forall_mem_cons.1 hdeclared
    cases h with
    | cons hpiece hall =>
      rw [readAll_step (Record.decode_length head)
        (readEntryPiece_of_isPiece hres head hpiece hfirst), ih hall hrest, map_ok]

/-! ## The last key and the last value

Looking for the last key among the pieces is looking for the last record that bears its number. -/

theorem findSome?_of_lastOf? {n : Nat} {f : EntryPiece → Option Value} {Q : Record → Value → Prop}
    (hnumber : ∀ r piece, p.IsPiece reg levels r piece → r.number = n →
      ∃ v, f piece = some v ∧ Q r v)
    (hother : ∀ r piece, p.IsPiece reg levels r piece → r.number ≠ n → f piece = none)
    (h : List.Forall₂ (p.IsPiece reg levels) rs pieces) :
    (∃ r v, lastOf? n rs = some r ∧ pieces.reverse.findSome? f = some v ∧ Q r v) ∨
      lastOf? n rs = none ∧ pieces.reverse.findSome? f = none := by
  induction h with
  | nil => exact .inr ⟨rfl, rfl⟩
  | @cons r piece rs pieces hpiece _ ih =>
    rw [List.reverse_cons, List.findSome?_append, lastOf?, List.filter_cons]
    rcases ih with ⟨last, v, hlast, hv, hq⟩ | ⟨hlast, hnone⟩
    · -- A later record of the number hides this one.
      rw [lastOf?] at hlast
      refine .inl ⟨last, v, ?_, by rw [hv]; rfl, hq⟩
      split
      · rw [List.getLast?_cons, hlast]
        rfl
      · exact hlast
    · rw [lastOf?, List.getLast?_eq_none_iff] at hlast
      rw [hlast, hnone, Option.none_or]
      by_cases hn : r.number = n
      · obtain ⟨v, hv, hq⟩ := hnumber r piece hpiece hn
        rw [if_pos (beq_iff_eq.2 hn)]
        exact .inl ⟨r, v, rfl, by rw [List.findSome?_cons, hv], hq⟩
      · rw [if_neg (by simpa using hn)]
        exact .inr ⟨rfl, by rw [List.findSome?_cons, hother r piece hpiece hn]; rfl⟩

theorem lastKey?_of_pieces (h : List.Forall₂ (p.IsPiece reg levels) rs pieces) :
    (∃ r k, lastOf? 1 rs = some r ∧ lastKey? pieces = some k ∧
        p.keyType.ofPayload? r.payload = some k) ∨
      lastOf? 1 rs = none ∧ lastKey? pieces = none := by
  refine findSome?_of_lastOf? (fun r piece hpiece hn ↦ ?_) (fun r piece hpiece hn ↦ ?_) h
  · obtain ⟨k, rfl, hk⟩ := hpiece.exists_key hn
    exact ⟨k, rfl, hk⟩
  · cases hpiece with
    | key hkey _ => exact absurd hkey hn
    | value _ _ => rfl
    | other _ _ => rfl

theorem lastValue?_of_pieces (h : List.Forall₂ (p.IsPiece reg levels) rs pieces) :
    (∃ r v, lastOf? 2 rs = some r ∧ lastValue? pieces = some v ∧
        p.ReadsAs reg (reg.nestedAt levels) r.payload v) ∨
      lastOf? 2 rs = none ∧ lastValue? pieces = none := by
  refine findSome?_of_lastOf? (fun r piece hpiece hn ↦ ?_) (fun r piece hpiece hn ↦ ?_) h
  · obtain ⟨v, rfl, hv⟩ := hpiece.exists_value hn
    exact ⟨v, rfl, hv⟩
  · cases hpiece with
    | key _ _ => rfl
    | value hvalue _ => exact absurd hvalue hn
    | other _ _ => rfl

/-! ## What an entry is read as

Put together, the reader of entries returns what the frame holds, and fails where it holds
nothing. -/

variable {e : Value × Value}

/-- A frame that is read as an entry holds it. -/
theorem holdsEntry_of_readEntry (hres : p.element.Resolved reg)
    (h : (readEntry reg (reg.nestedAt levels) p p.keyType frame).result = .ok (some e)) :
    p.HoldsEntry reg levels frame e := by
  obtain ⟨pieces, hpieces, hrejected, hentry⟩ := readEntry_eq_ok h
  obtain ⟨hkey, hvalue⟩ := hentry e.1 e.2 rfl
  obtain ⟨rs, hrs, hall⟩ := records_of_readAll hres hpieces hrejected.symm
  obtain ⟨hcomplete, rfl⟩ := records_iff.1 hrs
  refine ⟨hcomplete, fun r hr hn ↦ ?_, fun r hr hn ↦ ?_, ?_, ?_⟩
  · obtain ⟨piece, -, hpiece⟩ := exists_of_forall₂_left hall hr
    obtain ⟨k, -, hk⟩ := hpiece.exists_key hn
    exact ⟨k, hk⟩
  · obtain ⟨piece, -, hpiece⟩ := exists_of_forall₂_left hall hr
    obtain ⟨w, -, hw⟩ := hpiece.exists_value hn
    exact ⟨w, hw⟩
  · rw [recordsOf, hkey]
    rcases lastKey?_of_pieces hall with ⟨r, k, hr, hk, hpayload⟩ | ⟨hr, hk⟩
    · rw [hr, hk]
      exact hpayload
    · rw [hr, hk]
      rfl
  · rw [recordsOf]
    rcases lastValue?_of_pieces hall with ⟨r, w, hr, hw, hreads⟩ | ⟨hr, hw⟩
    · rw [hr]
      rcases hvalue with hv | ⟨hnone, -⟩
      · obtain rfl := Option.some.inj (hw.symm.trans hv)
        exact hreads
      · cases hw.symm.trans hnone
    · rw [hr]
      rcases hvalue with hv | ⟨-, hv⟩
      · cases hw.symm.trans hv
      · exact Plan.zeroElement_eq_ok.1 hv

theorem Plan.HoldsEntry.exists_pieces (h : p.HoldsEntry reg levels frame e) :
    ∃ pieces, List.Forall₂ (p.IsPiece reg levels) (recordsOf frame) pieces := by
  refine exists_forall₂ fun r hr ↦ ?_
  by_cases hkey : r.number = 1
  · obtain ⟨k, hk⟩ := h.keys r hr hkey
    exact ⟨_, .key hkey hk⟩
  · by_cases hvalue : r.number = 2
    · obtain ⟨w, hw⟩ := h.values r hr hvalue
      exact ⟨_, .value hvalue hw⟩
    · exact ⟨_, .other hkey hvalue⟩

theorem Plan.HoldsEntry.lastKey?_getD (h : p.HoldsEntry reg levels frame e)
    (hall : List.Forall₂ (p.IsPiece reg levels) (recordsOf frame) pieces) :
    (lastKey? pieces).getD p.keyType.zero = e.1 := by
  have hkey := h.key
  rcases lastKey?_of_pieces hall with ⟨r, k, hr, hk, hpayload⟩ | ⟨hr, hk⟩
  · rw [hr] at hkey
    rw [hk]
    exact Option.some.inj (hpayload.symm.trans hkey)
  · rw [hr] at hkey
    rw [hk]
    exact hkey.symm

/-- A frame that holds an entry is read as it, where all numbers are declared. -/
theorem readEntry_of_holdsEntry (hres : p.element.Resolved reg)
    (hdeclares : p.DeclaresAll reg frame) (h : p.HoldsEntry reg levels frame e) :
    (readEntry reg (reg.nestedAt levels) p p.keyType frame).result = .ok (some e) := by
  obtain ⟨pieces, hall⟩ := h.exists_pieces
  have hrs : Records frame (recordsOf frame) := records_iff.2 ⟨h.complete, rfl⟩
  have hread := readAll_of_records hres hrs hall hdeclares
  have hrejected : pieces.any EntryPiece.isRejected = false := by
    rw [List.any_eq_false]
    intro piece hpiece
    obtain ⟨r, -, hr⟩ := exists_of_forall₂_right hall hpiece
    rw [hr.isRejected_eq]
    exact Bool.false_ne_true
  have hvalue := h.value
  simp only [readEntry, Logged.result_bind, hread, ok_bind, hrejected, if_neg Bool.false_ne_true,
    h.lastKey?_getD hall]
  rcases lastValue?_of_pieces hall with ⟨r, w, hr, hw, hreads⟩ | ⟨hr, hw⟩
  · rw [hr] at hvalue
    rw [hw, hreads.unique hvalue]
    rfl
  · rw [hr] at hvalue
    rw [hw]
    simp only [Logged.result_bind, Plan.zeroElement_eq_ok.2 hvalue, ok_bind, Logged.result_pure]

/-- **What an entry is read as.** Where all numbers are declared, a frame is read as an entry
exactly if it holds it. -/
theorem readEntry_eq_some_iff (hres : p.element.Resolved reg)
    (hdeclares : p.DeclaresAll reg frame) :
    (readEntry reg (reg.nestedAt levels) p p.keyType frame).result = .ok (some e) ↔
      p.HoldsEntry reg levels frame e :=
  ⟨holdsEntry_of_readEntry hres, readEntry_of_holdsEntry hres hdeclares⟩

end

/-! ## Records of a map field

Each record of a map field inserts the entry that it is, and entries are kept in the order of their
coming, with those of one key side by side. Only native maps drop what came earlier. -/

/-- The records of a field in an input, in the order in which they come. -/
def Plan.recordsIn (p : Plan) (input : Bytes) : List (Bytes × Record) :=
  (split Record.decode input).filter (·.2.number == p.field.number)

/-- A record is an entry of a map field. -/
def Plan.IsEntry (p : Plan) (reg : Registry) (levels : Nat) (piece : Bytes × Record)
    (e : Value × Value) : Prop :=
  ∃ frame, piece.2.payload = .bytes frame ∧ p.HoldsEntry reg levels frame e

/-- The entries of records are determined by them. -/
theorem Plan.entries_unique {p : Plan} {reg : Registry} {levels : Nat}
    {pieces : List (Bytes × Record)} {es es' : List (Value × Value)}
    (h : List.Forall₂ (p.IsEntry reg levels) pieces es)
    (h' : List.Forall₂ (p.IsEntry reg levels) pieces es') : es = es' := by
  have hsame : List.Forall₂ (· = ·) es es' := by
    refine (forall₂_cross h h').imp ?_
    rintro e e' ⟨piece, ⟨frame, hframe, he⟩, frame', hframe', he'⟩
    cases hframe.symm.trans hframe'
    exact he.unique he'
  rwa [List.forall₂_eq_eq_eq] at hsame

section

variable {m : MessageMarshaller} {reg : Registry} {p : Plan} {k levels : Nat}
  {piece : Bytes × Record} {pieces : List (Bytes × Record)} {e : Value × Value}

section

variable (hm : m.WellFormed) (hp : m.plans[k]? = some p) (hc : p.field.cardinality = .map)
  (hres : p.element.Resolved reg) (hnumber : piece.2.number = p.field.number)
  (hdeclares : ∀ frame, piece.2.payload = .bytes frame → p.DeclaresAll reg frame)

include hm hp hc hres hnumber hdeclares

theorem insert_of_isEntry (hrecord : Record.decode piece.1 = .ok (piece.2, []))
    (he : p.IsEntry reg levels piece e) :
    m.Reads reg (reg.nestedAt levels) piece ∧
      m.effectAlone reg (reg.nestedAt levels) piece = { change := some (k, .insert e.1 e.2) } := by
  obtain ⟨frame, hframe, hholds⟩ := he
  obtain ⟨tag, afterTag, ht, htag, hpayload⟩ := Record.decode_eq_ok.1 hrecord
  have hw : tag.wireType = .lengthDelimited := by
    rw [← Payload.wireType_of_decode hpayload, hframe]
    rfl
  rw [hw] at hpayload
  obtain ⟨frame', hsame, htaken⟩ := Payload.decode_frame hpayload
  cases hframe.symm.trans hsame
  have hentry := (readEntry_eq_some_iff hres (hdeclares frame hframe)).2 hholds
  have hplan : m.plan? tag.number = some (k, p) := by
    rw [htag, hnumber]
    exact MessageMarshaller.plan?_of_getElem? hm.numbers hp
  have hread : (m.readRecord reg (reg.nestedAt levels) piece.1).result
      = .ok ({ change := some (k, .insert e.1 e.2) }, []) :=
    MessageMarshaller.readRecord_of_readsRecordAs ht hplan (.entry hc hw htaken hentry)
  have hreads : m.Reads reg (reg.nestedAt levels) (consumed piece.1 [], piece.2) :=
    MessageMarshaller.reads_of_readRecord hread hrecord
  rw [show consumed piece.1 [] = piece.1 from List.take_length] at hreads
  exact ⟨hreads, (Prod.mk.inj (Except.ok.inj (hreads.readRecord.symm.trans hread))).1⟩

theorem isEntry_of_reads (h : m.Reads reg (reg.nestedAt levels) piece) :
    ∃ e, p.IsEntry reg levels piece e ∧
      m.effectAlone reg (reg.nestedAt levels) piece = { change := some (k, .insert e.1 e.2) } := by
  obtain ⟨tag, afterTag, ht, hcases⟩ := MessageMarshaller.readRecord_eq_ok h.readRecord
  obtain ⟨tag', afterTag', ht', htag, hpayload⟩ := Record.decode_eq_ok.1 h.record
  obtain ⟨rfl, rfl⟩ := Prod.mk.inj (Except.ok.inj (ht.symm.trans ht'))
  have hplan : m.plan? tag.number = some (k, p) := by
    rw [htag, hnumber]
    exact MessageMarshaller.plan?_of_getElem? hm.numbers hp
  have hframe : ∀ {frame : Bytes}, tag.wireType = .lengthDelimited →
      readLengthDelimited afterTag = .ok (frame, []) → piece.2.payload = .bytes frame := by
    intro frame hw htaken
    rw [hw, Payload.decode_of_frame htaken] at hpayload
    exact (Prod.mk.inj (Except.ok.inj hpayload)).1.symm
  rcases hcases with ⟨hnone, -⟩ | ⟨index, q, hsome, hread⟩
  · cases hplan.symm.trans hnone
  · cases hplan.symm.trans hsome
    generalize m.effectAlone reg (reg.nestedAt levels) piece = effect at hread ⊢
    cases hread with
    | @entry frame key v _ hw htaken hentry =>
      have hpiece := hframe hw htaken
      exact ⟨(key, v), ⟨frame, hpiece,
        (readEntry_eq_some_iff hres (hdeclares frame hpiece)).1 hentry⟩, rfl⟩
    | @spoiledEntry frame _ hw htaken hentry =>
      -- An entry is spoiled by an undeclared number only.
      obtain ⟨entries, hentries, hrejected, -⟩ := readEntry_eq_ok hentry
      rw [any_isRejected_eq hentries, eq_comm, Option.isNone_none, List.any_eq_true] at hrejected
      obtain ⟨part, hpart, hrejected⟩ := hrejected
      rw [Bool.and_eq_true, beq_iff_eq] at hrejected
      rw [hdeclares frame (hframe hw htaken) part.2 (List.mem_map_of_mem hpart) hrejected.1]
        at hrejected
      cases hrejected.2
    | packed hlist => cases hc.symm.trans hlist
    | element hlist => cases hc.symm.trans hlist
    | single hsingle => rcases hsingle with hc' | hc' <;> cases hc.symm.trans hc'
    | rejected hmap => exact absurd hc hmap

end

theorem fill_of_entries (hm : m.WellFormed) (hp : m.plans[k]? = some p)
    (hc : p.field.cardinality = .map) {nested : NestedReader} {es : List (Value × Value)}
    (hreads : ∀ piece ∈ pieces, m.Reads reg nested piece)
    (hes : List.Forall₂ (fun piece e ↦
      m.effectAlone reg nested piece = { change := some (k, .insert e.1 e.2) })
      (pieces.filter (·.2.number == p.field.number)) es) :
    m.fill p (m.slot (pieces.map (m.effectAlone reg nested)) k) = .ok (some (.map es)) := by
  have honeof := (hm.plans p (List.mem_of_getElem? hp)).oneof_eq_none (by rw [hc]; decide)
  have hown : m.slot (pieces.map (m.effectAlone reg nested)) k =
      m.slot ((pieces.filter (·.2.number == p.field.number)).map (m.effectAlone reg nested)) k :=
    MessageMarshaller.slot_filter fun piece hpiece hnumber ↦
      (hreads piece hpiece).slotAfter_of_number hp honeof (beq_eq_false_iff_ne.1 hnumber)
  rw [hown, ← fill_collect_insert m hc es]
  congr 1
  clear hown
  generalize pieces.filter (·.2.number == p.field.number) = own at hes ⊢
  unfold MessageMarshaller.slot collect
  -- What the entries in front have left in the slot is arbitrary.
  generalize (none : Option Value) = start
  induction hes generalizing start with
  | nil => rfl
  | cons he _ ih =>
    rw [List.map_cons, List.map_cons, List.foldl_cons, List.foldl_cons, he,
      Draft.slotAfter_of_eq rfl]
    exact ih _

end

section

variable {m : MessageMarshaller} {reg : Registry} {p : Plan} {k levels : Nat} {input : Bytes}

theorem Plan.mem_recordsIn {piece : Bytes × Record} : piece ∈ p.recordsIn input ↔
    piece ∈ split Record.decode input ∧ piece.2.number = p.field.number := by
  rw [recordsIn, List.mem_filter, beq_iff_eq]

variable (hm : m.WellFormed) (hp : m.plans[k]? = some p) (hc : p.field.cardinality = .map)
  (hres : p.element.Resolved reg)
  (hdeclares : ∀ piece ∈ p.recordsIn input, ∀ frame, piece.2.payload = .bytes frame →
    p.DeclaresAll reg frame)

include hm hp hc hres hdeclares

theorem exists_entries_of_reads
    (hreads : ∀ piece ∈ split Record.decode input, m.Reads reg (reg.nestedAt levels) piece) :
    ∃ es, List.Forall₂ (p.IsEntry reg levels) (p.recordsIn input) es ∧
      m.fill p (m.slot ((split Record.decode input).map
        (m.effectAlone reg (reg.nestedAt levels))) k) = .ok (some (.map es)) := by
  obtain ⟨es, hes⟩ : ∃ es, List.Forall₂ (fun piece e ↦ p.IsEntry reg levels piece e ∧
      m.effectAlone reg (reg.nestedAt levels) piece = { change := some (k, .insert e.1 e.2) })
      (p.recordsIn input) es := by
    refine exists_forall₂ fun piece hpiece ↦ ?_
    obtain ⟨hsplit, hnumber⟩ := Plan.mem_recordsIn.1 hpiece
    exact isEntry_of_reads hm hp hc hres hnumber (hdeclares piece hpiece) (hreads piece hsplit)
  exact ⟨es, hes.imp fun _ _ h ↦ h.1, fill_of_entries hm hp hc hreads (hes.imp fun _ _ h ↦ h.2)⟩

theorem reads_of_entries {es : List (Value × Value)}
    (hes : List.Forall₂ (p.IsEntry reg levels) (p.recordsIn input) es)
    (hothers : ∀ piece ∈ split Record.decode input, piece.2.number ≠ p.field.number →
      m.Reads reg (reg.nestedAt levels) piece) :
    ∀ piece ∈ split Record.decode input, m.Reads reg (reg.nestedAt levels) piece := by
  intro piece hpiece
  by_cases hnumber : piece.2.number = p.field.number
  · have hown := Plan.mem_recordsIn.2 ⟨hpiece, hnumber⟩
    obtain ⟨e, -, he⟩ := exists_of_forall₂_left hes hown
    have hrecord := Record.local_decode.yields_of_mem_split hpiece []
    rw [List.append_nil] at hrecord
    exact (insert_of_isEntry hm hp hc hres hnumber (hdeclares piece hown) hrecord he).1
  · exact hothers piece hpiece hnumber

end

/-- **Map entries are read canonically.** Take a map field of a registered message type and an input
in which all numbers of the entries are declared. The records of the input can be read exactly if it
is made up of records, those of other fields can be read, and each record of the field holds an
entry. The factories are then handed the entries as they came, one for each record. If all of them
can be converted to the keys and values of a native map, they make a sorted map and a hashed map,
which hold each key once, with the value of the last pair that has the key; and whatever native map
they make is made so. -/
theorem entries_of_readAll {reg : Registry} (hreg : reg.Compiled) {t : TypeId}
    {m : MessageMarshaller} (hm : reg.messageMarshaller? t = some m) {p : Plan} (hp : p ∈ m.plans)
    (hc : p.field.cardinality = .map) {levels : Nat} {input : Bytes}
    (hdeclares : ∀ piece ∈ p.recordsIn input, ∀ frame, piece.2.payload = .bytes frame →
      p.DeclaresAll reg frame) :
    ((∃ effects, (readAll (m.readRecord reg (reg.nestedAt levels)) input).result = .ok effects) ↔
      (split Record.decode input).flatMap (·.1) = input ∧
        (∀ piece ∈ split Record.decode input, piece.2.number ≠ p.field.number →
          m.Reads reg (reg.nestedAt levels) piece) ∧
        ∃ es, List.Forall₂ (p.IsEntry reg levels) (p.recordsIn input) es) ∧
      ∀ effects, (readAll (m.readRecord reg (reg.nestedAt levels)) input).result = .ok effects →
        (reg.decodeAt levels m input).result = m.handing effects >>= (fun hand ↦
          (m.layout.assemble hand [] ⟨effects.flatMap (·.retained)⟩).mapError .factory) ∧
        ∃ es, List.Forall₂ (p.IsEntry reg levels) (p.recordsIn input) es ∧
          (∀ hand, m.handing effects = .ok hand → hand p.path = some (.map es)) ∧
          (∀ (key : KeyType) (v : NativeType) (pairs : List (key.Carrier × v.Carrier)),
            List.Forall₂ (NativeType.Converts key v) es pairs →
              (∃ map, (NativeType.sortedMap key v).fromValue (.map es) = .ok map ∧
                KeepsLast pairs map ∧ Ascends map) ∧
              ∃ map, (NativeType.hashedMap key v).fromValue (.map es) = .ok map ∧
                KeepsLast pairs map) ∧
          ∀ (key : KeyType) (v : NativeType) (map : List (key.Carrier × v.Carrier)),
            (NativeType.sortedMap key v).fromValue (.map es) = .ok map ∨
                (NativeType.hashedMap key v).fromValue (.map es) = .ok map →
              ∃ pairs, List.Forall₂ (NativeType.Converts key v) es pairs ∧
                KeepsLast pairs map := by
  have hwell := hreg.closed.wellFormed t m hm
  have hres := hreg.closed.resolved t m hm p hp
  obtain ⟨k, hk⟩ := List.mem_iff_getElem?.1 hp
  refine ⟨⟨?_, ?_⟩, fun effects hread ↦ ⟨?_, ?_⟩⟩
  · rintro ⟨effects, hread⟩
    obtain ⟨hinput, hreads, -⟩ := MessageMarshaller.readAll_eq_ok_iff.1 hread
    obtain ⟨es, hes, -⟩ := exists_entries_of_reads hwell hk hc hres hdeclares hreads
    exact ⟨hinput, fun piece hpiece _ ↦ hreads piece hpiece, es, hes⟩
  · rintro ⟨hinput, hothers, es, hes⟩
    exact ⟨_, MessageMarshaller.readAll_eq_ok_iff.2
      ⟨hinput, reads_of_entries hwell hk hc hres hdeclares hes hothers, rfl⟩⟩
  · rw [Registry.decodeAt_eq]
    exact MessageMarshaller.result_decodeWith_of_readAll hread
  · obtain ⟨-, hreads, rfl⟩ := MessageMarshaller.readAll_eq_ok_iff.1 hread
    obtain ⟨es, hes, hfill⟩ := exists_entries_of_reads hwell hk hc hres hdeclares hreads
    refine ⟨es, hes, fun hand hhand ↦ ?_, fun key v pairs hpairs ↦
      NativeType.keepsLast_of_pairs hpairs, fun key v map hmap ↦
        NativeType.exists_pairs_of_fromValue hmap⟩
    have hhanded := MessageMarshaller.fill_of_handing hwell hhand hk
    rw [hfill] at hhanded
    exact (Except.ok.inj hhanded).symm

/-! ## Sensors of a meter

An entry may have more records than two, in any order, or none at all. -/

namespace Meter

def sensorsPlan : Plan where
  field :=
    ⟨3, "sensors", .lengthDelimited, .map, .enum "Level", some .int32, none, false, false, none,
      none⟩
  element := .enum level false
  path := [2]

/-- A value, a record of another number, a key, and another value. -/
def crowded : Bytes := [0x10, 0x01, 0x18, 0x09, 0x08, 0x07, 0x10, 0x02]

/-- A crowded entry and an empty one. -/
def sensors : Bytes := [0x1A, 0x08] ++ crowded ++ [0x1A, 0x00]

theorem holds_crowded :
    sensorsPlan.HoldsEntry registry nestingLimit crowded (.i32 7, .enum 2) := by
  have hrecords : recordsOf crowded =
      [⟨2, .varint 1⟩, ⟨3, .varint 9⟩, ⟨1, .varint 7⟩, ⟨2, .varint 2⟩] := by decide +kernel
  refine ⟨by decide +kernel, ?_, ?_, ?_, ?_⟩
  all_goals rw [hrecords]
  · simp only [List.forall_mem_cons]
    exact ⟨nofun, nofun, fun _ ↦ ⟨_, rfl⟩, nofun, nofun⟩
  · simp only [List.forall_mem_cons]
    exact ⟨fun _ ↦ ⟨_, .plain rfl⟩, nofun, nofun, fun _ ↦ ⟨_, .plain rfl⟩, nofun⟩
  · rfl
  · exact .plain rfl

theorem holds_empty : sensorsPlan.HoldsEntry registry nestingLimit [] (.i32 0, .enum 0) := by
  have hrecords : recordsOf [] = [] := by rw [recordsOf, split_nil, List.map_nil]
  refine ⟨by rw [split_nil, List.flatMap_nil], ?_, ?_, ?_, ?_⟩
  all_goals rw [hrecords]
  · exact fun r hr ↦ absurd hr List.not_mem_nil
  · exact fun r hr ↦ absurd hr List.not_mem_nil
  · rfl
  · exact .enum rfl

theorem exists_sensors : ∃ m, registry.messageMarshaller? log = some m ∧ sensorsPlan ∈ m.plans := by
  have hall : (registry.messageMarshaller? log).map (·.plans[2]?) = some (some sensorsPlan) := by
    decide +kernel
  obtain ⟨m, hm, hplan⟩ := Option.map_eq_some_iff.1 hall
  exact ⟨m, hm, List.mem_of_getElem? hplan⟩

theorem split_sensors : split Record.decode sensors =
    [([0x1A, 0x08] ++ crowded, ⟨3, .bytes crowded⟩), ([0x1A, 0x00], ⟨3, .bytes []⟩)] := by
  decide +kernel

theorem declares_sensors : sensorsPlan.DeclaresAll registry crowded := by
  have hall : (recordsOf crowded).all (fun r ↦
      (sensorsPlan.rejected? registry r.payload).isNone || r.number != 2) = true := by
    decide +kernel
  intro r hr hn
  have hnone := List.all_eq_true.1 hall r hr
  rw [hn] at hnone
  simpa using hnone

end Meter

/-- The crowded entry counts its last value, and the empty one stands for two zeros. -/
theorem Meter.entries_of_readAll_sensors : ∃ m effects, registry.messageMarshaller? log = some m ∧
    (readAll (m.readRecord registry (registry.nestedAt nestingLimit)) sensors).result
      = .ok effects ∧
    ∀ hand, m.handing effects = .ok hand →
      hand [2] = some (.map [(.i32 7, .enum 2), (.i32 0, .enum 0)]) := by
  obtain ⟨m, hm, hplan⟩ := exists_sensors
  have hrecords : sensorsPlan.recordsIn sensors =
      [([0x1A, 0x08] ++ crowded, ⟨3, .bytes crowded⟩), ([0x1A, 0x00], ⟨3, .bytes []⟩)] := by
    rw [Plan.recordsIn, split_sensors]
    rfl
  have hdeclares : ∀ piece ∈ sensorsPlan.recordsIn sensors, ∀ frame,
      piece.2.payload = .bytes frame → sensorsPlan.DeclaresAll registry frame := by
    rw [hrecords, List.forall_mem_cons, List.forall_mem_singleton]
    refine ⟨?_, ?_⟩
    · rintro frame ⟨⟩
      exact declares_sensors
    · rintro frame ⟨⟩ r hr
      rw [recordsOf, split_nil] at hr
      cases hr
  have hes : List.Forall₂ (sensorsPlan.IsEntry registry nestingLimit)
      (sensorsPlan.recordsIn sensors) [(.i32 7, .enum 2), (.i32 0, .enum 0)] := by
    rw [hrecords]
    exact .cons ⟨crowded, rfl, holds_crowded⟩ (.cons ⟨[], rfl, holds_empty⟩ .nil)
  have hcompiled : registry.Compiled := CompilationUnit.compiled_registry _ _
  obtain ⟨hreads, hentries⟩ :=
    @entries_of_readAll registry hcompiled log m hm sensorsPlan hplan rfl nestingLimit sensors
      hdeclares
  have hothers : ∀ piece ∈ split Record.decode sensors,
      piece.2.number ≠ sensorsPlan.field.number →
        m.Reads registry (registry.nestedAt nestingLimit) piece := by
    rw [split_sensors, List.forall_mem_cons, List.forall_mem_singleton]
    exact ⟨fun h ↦ absurd rfl h, fun h ↦ absurd rfl h⟩
  obtain ⟨effects, hread⟩ := hreads.2 ⟨by rw [split_sensors]; rfl, hothers, _, hes⟩
  obtain ⟨-, es, hes', hhand, -⟩ := hentries effects hread
  have hsame : es = [(.i32 7, .enum 2), (.i32 0, .enum 0)] :=
    Plan.entries_unique hes' hes
  exact ⟨m, effects, hm, hread, fun hand h ↦ hsame ▸ hhand hand h⟩

end ProtoSchema
