import ProtoSchema.Derive.Grammar.Item

/-!
# Reading code

The readers of all parts of code, tied together. What a part holds is read one level deeper, and
every few levels take a token, so a multiple of the tokens at hand is deep enough.
-/

set_option autoImplicit false

namespace ProtoSchema.Derive

/-- The readers for code that is at most so deep. -/
def readers : (depth : Nat) → Readers
  | 0 => .none
  | depth + 1 =>
    let r := readers depth
    { type := Grammar.type r
      bound := Grammar.bound r
      pattern := Grammar.pattern r
      operand := Grammar.operand r
      operators := Grammar.operators r
      standing := Grammar.standing r
      statements := Grammar.statements r
      item := Grammar.item r
      field := Grammar.namedField r
      imports := Grammar.imports r }

/-- The readers for code of the given tokens. -/
def readersFor (tokens : List Token) : Readers := readers (8 * (Token.sizeAll tokens + 1))

end ProtoSchema.Derive
