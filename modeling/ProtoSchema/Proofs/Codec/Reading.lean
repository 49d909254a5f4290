import ProtoSchema.Codec.Element
import ProtoSchema.Proofs.Codec.Scalar

/-!
# Repeated reading

Reading pieces until the input is used up is a homomorphism on input that is put together from
chunks: `ReadsAll step chunk as` says that a chunk at the front of any input contributes exactly the
pieces `as`. The statement has no length, no position and no condition on what follows, so messages,
packed runs and map entries are all read by putting their chunks side by side.

In the other direction, every piece of a successful reading was read by the step from some part of
the input.
-/

set_option autoImplicit false

namespace ProtoSchema

open Wire

variable {ε α : Type} {step : Bytes → Logged ε (α × Bytes)}

theorem readAll_nil (step : Bytes → Logged ε (α × Bytes)) : (readAll step []).result = .ok [] := by
  rw [readAll, if_pos List.isEmpty_nil, Logged.result_pure]

/-- A step that consumes something is followed by the reading of what it leaves. -/
theorem readAll_step {input rest : Bytes} {a : α} (hlt : rest.length < input.length)
    (h : (step input).result = .ok (a, rest)) :
    (readAll step input).result = (readAll step rest).result.map (a :: ·) := by
  have hne : ¬input.isEmpty := by
    rintro he
    rw [List.isEmpty_iff.1 he] at hlt
    exact absurd hlt (Nat.not_lt_zero _)
  rw [readAll, if_neg hne, Logged.result_bind, h, ok_bind]
  simp only [if_pos hlt, Logged.result_bind, Logged.result_pure]
  cases (readAll step rest).result <;> rfl

theorem readAll_of_error {input : Bytes} {e : ε} (hne : input ≠ [])
    (h : (step input).result = .error e) : (readAll step input).result = .error e := by
  rw [readAll, if_neg (mt List.isEmpty_iff.1 hne), Logged.result_bind, h, error_bind]

/-! ## Chunks

A chunk is read without a look at what stands behind it, so chunks side by side are read one after
the other. -/

/-- A chunk contributes the given pieces, whatever follows it. -/
def ReadsAll (step : Bytes → Logged ε (α × Bytes)) (chunk : Bytes) (as : List α) : Prop :=
  ∀ rest, (readAll step (chunk ++ rest)).result = (readAll step rest).result.map (as ++ ·)

namespace ReadsAll

theorem nil (step : Bytes → Logged ε (α × Bytes)) : ReadsAll step [] [] := by
  intro rest
  rw [List.nil_append]
  cases (readAll step rest).result <;> rfl

theorem single {chunk : Bytes} {a : α} (hne : chunk ≠ [])
    (h : Yields (fun input ↦ (step input).result) chunk a) : ReadsAll step chunk [a] := by
  intro rest
  have hlt : rest.length < (chunk ++ rest).length := by
    have := List.length_pos_iff.2 hne
    rw [List.length_append]
    omega
  exact readAll_step hlt (h rest)

theorem append {chunk more : Bytes} {as bs : List α} (h : ReadsAll step chunk as)
    (h' : ReadsAll step more bs) : ReadsAll step (chunk ++ more) (as ++ bs) := by
  intro rest
  rw [List.append_assoc, h, h']
  cases (readAll step rest).result with
  | error e => rfl
  | ok cs => simp only [map_ok, List.append_assoc]

theorem flatMap {β : Type} {chunk : β → Bytes} {piece : β → α} {l : List β}
    (h : ∀ b ∈ l, ReadsAll step (chunk b) [piece b]) :
    ReadsAll step (l.flatMap chunk) (l.map piece) := by
  induction l with
  | nil => exact nil step
  | cons b rest ih =>
    rw [List.flatMap_cons, List.map_cons]
    exact append (h b List.mem_cons_self) (ih fun c hc ↦ h c (List.mem_cons_of_mem b hc))

/-- A chunk that is all of the input is read as its pieces. -/
theorem result {chunk : Bytes} {as : List α} (h : ReadsAll step chunk as) :
    (readAll step chunk).result = .ok as := by
  have := h []
  rwa [List.append_nil, readAll_nil, map_ok, List.append_nil] at this

end ReadsAll

/-- Every piece of a reading was read by the step. -/
theorem exists_step_of_mem_readAll {input : Bytes} {as : List α} {a : α}
    (h : (readAll step input).result = .ok as) (ha : a ∈ as) :
    ∃ part rest, (step part).result = .ok (a, rest) := by
  induction hn : input.length using Nat.strongRecOn generalizing input as with
  | ind n ih =>
    by_cases hne : input = []
    · rw [hne, readAll_nil] at h
      cases h
      cases ha
    · rw [readAll, if_neg (by simpa using hne)] at h
      obtain ⟨⟨b, rest⟩, hb, h⟩ := Logged.bind_eq_ok.1 h
      by_cases hlt : rest.length < input.length
      · simp only [if_pos hlt] at h
        obtain ⟨bs, hbs, h⟩ := Logged.bind_eq_ok.1 h
        cases h
        rcases List.mem_cons.1 ha with rfl | ha
        · exact ⟨input, rest, hb⟩
        · exact ih rest.length (hn ▸ hlt) hbs ha rfl
      · simp only [if_neg hlt, Logged.result_pure] at h
        cases h
        rw [List.mem_singleton.1 ha]
        exact ⟨input, rest, hb⟩

end ProtoSchema
