import ProtoSchema.Proofs.Codec.Decoding
import ProtoSchema.Proofs.Codec.Relating

/-!
# Levels of nesting

The levels that are left below a message bound the recursion of decoding. What is read with more
levels is what was read with fewer, unless these ran out, and running out shows: it is reported, and
nothing that encloses the message hides it.

The recursion of the library counts levels down. Counting them up, in readers that are opened one
below the other, comes to the same: below the limit there is one way only to read messages so, and
what readers beyond the limit would do has no part in it.
-/

set_option autoImplicit false

namespace ProtoSchema

open Wire

/-! ## Fewer levels

The relation between a reading with fewer levels and one with more passes through all steps of
decoding, since a step that ran out of levels is never caught. What remains is the one place where
levels are counted. -/

/-- What comes of a reading with fewer levels, `x`, comes of it with more levels too, `x'`, unless
the levels ran out. -/
def Limited {α : Type} (x x' : Except DecodeError α) : Prop :=
  x' = x ∨ x = .error (.wire (.recursionLimit nestingLimit))

theorem compositional_limited : Compositional @Limited where
  ok _ := .inl rfl
  wire _ := .inl rfl
  bind {_ _ x x' _ _} hx hf := by
    rcases hx with rfl | rfl
    · cases x' with
      | ok a => exact hf a rfl
      | error e => exact .inl rfl
    · exact .inr rfl

section

variable {reg : Registry} {nested nested' : NestedReader} {m : MessageMarshaller}

theorem asks_limited (p : Plan) : p.Asks @Limited reg reg where
  marshaller _ _ := .inl rfl
  judge _ _ _ _ := .inl rfl

theorem limited_decodeWith (h : nested.Related @Limited reg nested') (input : Bytes) :
    Limited (m.decodeWith reg nested input).result (m.decodeWith reg nested' input).result :=
  compositional_limited.decodeWith h (fun p _ ↦ asks_limited p) input fun _ _ ↦ .inl rfl

theorem NestedReader.Related.limited
    {read : MessageMarshaller → Bytes → Logged DecodeError Instance}
    (h : ∀ m frame, Limited (nested.run m frame).result (read m frame).result) :
    nested.Related @Limited reg (some read) where
  opened h := nomatch h
  closed _ := .inr fun _ _ ↦ .inr rfl
  run _ m _ frame := h m frame

variable (reg)

theorem limited_nestedAt (levels more : Nat) :
    (reg.nestedAt levels).Related @Limited reg (reg.nestedAt (levels + more)) := by
  induction levels with
  | zero =>
    exact ⟨fun _ ↦ rfl, fun _ ↦ .inr fun _ _ ↦ .inr rfl, fun _ _ _ _ ↦ .inr rfl⟩
  | succ levels ih =>
    rw [Nat.succ_add]
    refine .limited fun m frame ↦ ?_
    rw [Registry.nestedAt, NestedReader.run, Registry.decodeAt_eq, Registry.decodeAt_eq]
    exact limited_decodeWith ih frame

/-- **More levels** change a result only where levels ran out. -/
theorem limited_decodeAt (levels more : Nat) (m : MessageMarshaller) (input : Bytes) :
    Limited (reg.decodeAt levels m input).result (reg.decodeAt (levels + more) m input).result := by
  rw [Registry.decodeAt_eq, Registry.decodeAt_eq]
  exact limited_decodeWith (limited_nestedAt reg levels more) input

end

/-! ## Readers below readers

A reader that opens below another one has one level less. Below the limit this is the recursion of
the library, by induction on the levels that are left. Beyond it no reader is opened at all. -/

/-- The reader of nested messages by a function that is handed the reader which opens below `r`, if
one does. -/
def Wire.Reader.below (r : Reader)
    (read : MessageMarshaller → Reader → Logged DecodeError Instance) : NestedReader :=
  -- Whether a level may open does not depend on the frame.
  match r.nested [] with
  | .ok _ => some fun m frame ↦ do read m (← ofWire (r.nested frame))
  | .error _ => none

/-- A function reads messages by opening readers one below the other, as far as the limit allows.
Nothing is said of what it does with a reader beyond the limit. -/
def Registry.OpensReaders (reg : Registry)
    (read : MessageMarshaller → Reader → Logged DecodeError Instance) : Prop :=
  ∀ m r, r.depth ≤ nestingLimit → read m r = m.decodeWith reg (r.below read) r.unread

section

variable {reg : Registry} {read : MessageMarshaller → Reader → Logged DecodeError Instance}
  {r : Reader}

theorem below_of_limit (h : r.depth = nestingLimit) : r.below read = none := by
  rw [Reader.below, Reader.nested, if_pos (Nat.le_of_eq h.symm)]

theorem below_of_lt (h : r.depth < nestingLimit) :
    r.below read = some fun m frame ↦ read m ⟨frame, r.depth + 1⟩ := by
  have hopen : ∀ frame, r.nested frame = .ok ⟨frame, r.depth + 1⟩ :=
    fun frame ↦ if_neg (Nat.not_le.2 h)
  rw [Reader.below, hopen]
  simp only [hopen]
  rfl

theorem below_eq_nestedAt (h : r.depth ≤ nestingLimit)
    (hread : ∀ m frame, r.depth < nestingLimit →
      read m ⟨frame, r.depth + 1⟩ = reg.readWith m ⟨frame, r.depth + 1⟩) :
    r.below read = reg.nestedAt r.levelsLeft := by
  by_cases hlimit : r.depth = nestingLimit
  · rw [below_of_limit hlimit, Reader.levelsLeft, hlimit, Nat.sub_self, Registry.nestedAt]
  · have hlt : r.depth < nestingLimit := Nat.lt_of_le_of_ne h hlimit
    have hlevels : r.levelsLeft = nestingLimit - (r.depth + 1) + 1 := by
      rw [Reader.levelsLeft]
      omega
    rw [below_of_lt hlt, hlevels, Registry.nestedAt]
    congr 1
    funext m frame
    exact hread m frame hlt

/-- **No reader opens beyond the limit.** There is exactly one way to read messages by opening
readers one below the other, whatever happens beyond the limit, and it is what the library does. -/
theorem opensReaders_iff :
    reg.OpensReaders read ↔ ∀ m r, r.depth ≤ nestingLimit → read m r = reg.readWith m r := by
  constructor
  · intro h
    -- The induction is on the levels that are left, none of which is beyond the limit.
    have hlevels : ∀ levels m r, r.depth ≤ nestingLimit → r.levelsLeft = levels →
        read m r = reg.readWith m r := by
      intro levels
      induction levels with
      | zero =>
        intro m r hr hleft
        have hlimit : r.depth = nestingLimit := by
          rw [Reader.levelsLeft] at hleft
          omega
        rw [h m r hr, below_of_limit hlimit, Registry.readWith, hleft, Registry.decodeAt]
      | succ levels ih =>
        intro m r hr hleft
        rw [h m r hr, Registry.readWith, Registry.decodeAt_eq]
        congr 1
        refine below_eq_nestedAt hr fun inner frame hlt ↦ ih inner _ hlt ?_
        rw [Reader.levelsLeft] at hleft ⊢
        dsimp only
        omega
    exact fun m r hr ↦ hlevels _ m r hr rfl
  · intro h m r hr
    rw [h m r hr, Registry.readWith, Registry.decodeAt_eq,
      below_eq_nestedAt hr fun m frame hlt ↦ h m _ hlt]

end

end ProtoSchema
