import ProtoSchema.Proofs.Wire.Record

/-!
# Frames that parse

What a writer puts one behind the other is what a parser finds: records make up bytes that are those
records, and the payloads of one wire type make up a run that is those payloads. Both are said by
what reading does, not by how the bytes came about, so a length in front of a frame is the length
that the reader took the frame by.
-/

set_option autoImplicit false

namespace ProtoSchema.Wire

theorem Records.append {front back : Bytes} {rs ss : List Record} (h : Records front rs)
    (hback : Records back ss) : Records (front ++ back) (rs ++ ss) := by
  induction h with
  | nil => exact hback
  | @cons input rest r rs head _ ih =>
    obtain ⟨chunk, rfl, hchunk⟩ := Record.local_decode input r rest head
    refine .cons ?_ ih
    rw [List.append_assoc]
    exact hchunk (rest ++ back)

theorem Records.of_encode {r : Record} (hr : r.tag.IsValid) (hl : r.encode.length < UInt64.size) :
    Records r.encode [r] := by
  have hyields := Record.yields_encode hr hl []
  rw [List.append_nil] at hyields
  exact .cons hyields .nil

theorem records_flatMap_encode {rs : List Record} (hvalid : ∀ r ∈ rs, r.tag.IsValid)
    (hl : (rs.flatMap Record.encode).length < UInt64.size) :
    Records (rs.flatMap Record.encode) rs := by
  induction rs with
  | nil => exact .nil
  | cons r rest ih =>
    rw [List.flatMap_cons, List.length_append] at hl
    obtain ⟨hr, hrest⟩ := List.forall_mem_cons.1 hvalid
    have hlr : r.encode.length < UInt64.size := by omega
    have hlrest : (rest.flatMap Record.encode).length < UInt64.size := by omega
    exact (Records.of_encode hr hlr).append (ih hrest hlrest)

/-- The bytes are the given payloads of one wire type, complete and one behind the other. -/
inductive Run (w : WireType) : Bytes → List Payload → Prop
  | nil : Run w [] []
  | cons {input rest : Bytes} {p : Payload} {ps : List Payload}
      (head : Payload.decode w input = .ok (p, rest)) (tail : Run w rest ps) : Run w input (p :: ps)

theorem run_flatMap_encode {w : WireType} {ps : List Payload} (hw : ∀ p ∈ ps, p.wireType = w)
    (hl : (ps.flatMap Payload.encode).length < UInt64.size) :
    Run w (ps.flatMap Payload.encode) ps := by
  induction ps with
  | nil => exact .nil
  | cons p rest ih =>
    rw [List.flatMap_cons, List.length_append] at hl
    obtain ⟨hp, hrest⟩ := List.forall_mem_cons.1 hw
    have hlp : p.encode.length < UInt64.size := by omega
    have hlrest : (rest.flatMap Payload.encode).length < UInt64.size := by omega
    refine .cons ?_ (ih hrest hlrest)
    rw [← hp]
    exact Payload.yields_encode hlp _

end ProtoSchema.Wire
