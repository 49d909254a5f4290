/-!
# Ranges of characters

Properties of characters are kept as ascending lists of closed ranges of code points.
-/

set_option autoImplicit false

namespace ProtoSchema.Text

/-- Whether a code point lies in one of the ranges. -/
def inRanges (ranges : List (Nat × Nat)) (c : Char) : Bool :=
  ranges.any fun (low, high) ↦ low ≤ c.toNat && c.toNat ≤ high

end ProtoSchema.Text
