import ProtoSchema.Wire.Payload

/-!
# Readers

A reader is the unread part of a frame together with the number of message frames around it. A
packed run and a map entry stay at the level of the message that holds them; a nested message is
one level deeper, and no reader is ever more than `nestingLimit` levels deep.
-/

set_option autoImplicit false

namespace ProtoSchema.Wire

/-- How deep messages may nest inside one top-level message. -/
def nestingLimit : Nat := 100

/-- The unread bytes of a frame and its nesting depth. -/
structure Reader where
  unread : Bytes
  depth : Nat := 0
  deriving DecidableEq, Repr

namespace Reader

/-- A reader over a frame of the same message. -/
def frame (r : Reader) (bytes : Bytes) : Reader := ⟨bytes, r.depth⟩

/-- A reader over a message nested in this one. -/
def nested (r : Reader) (bytes : Bytes) : Except WireError Reader :=
  if nestingLimit ≤ r.depth then .error (.recursionLimit nestingLimit)
  else .ok ⟨bytes, r.depth + 1⟩

/-- How many more levels may open below this reader. -/
def levelsLeft (r : Reader) : Nat := nestingLimit - r.depth

def run {α : Type} (r : Reader) (step : Bytes → Except WireError (α × Bytes)) :
    Except WireError (α × Reader) := do
  let (a, rest) ← step r.unread
  return (a, { r with unread := rest })

/-- The bytes read since the reader had `before` unread. -/
def consumedSince (r : Reader) (before : Bytes) : Bytes :=
  before.take (before.length - r.unread.length)

end Reader

end ProtoSchema.Wire
