import ProtoSchema.Wire.Basic

/-!
# Zigzag

Zigzag interleaves the signed and the unsigned integers, `0, -1, 1, -2, …` onto `0, 1, 2, 3, …`,
so that numbers of small magnitude have short varints. Both directions are stated on bit vectors
of any width and then named for the two widths in use.
-/

set_option autoImplicit false

namespace ProtoSchema.Wire.ZigZag

/-- Doubles the word and flips all bits when its sign bit is set. -/
def interleave {w : Nat} (x : BitVec w) : BitVec w := (x <<< 1) ^^^ x.sshiftRight (w - 1)

/-- Halves the word and flips all bits when it was odd. -/
def separate {w : Nat} (x : BitVec w) : BitVec w := (x >>> 1) ^^^ -(x &&& 1#w)

/-- The word that stands for a 32-bit integer. -/
def encode32 (n : Int32) : UInt32 := ⟨interleave n.toBitVec⟩

/-- The 32-bit integer that a word stands for. -/
def decode32 (w : UInt32) : Int32 := ⟨⟨separate w.toBitVec⟩⟩

/-- The word that stands for a 64-bit integer. -/
def encode64 (n : Int64) : UInt64 := ⟨interleave n.toBitVec⟩

/-- The 64-bit integer that a word stands for. -/
def decode64 (w : UInt64) : Int64 := ⟨⟨separate w.toBitVec⟩⟩

end ProtoSchema.Wire.ZigZag
