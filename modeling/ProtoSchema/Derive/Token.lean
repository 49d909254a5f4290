/-!
# Tokens of declarations

The text of a declaration is a sequence of tokens: words, marks, literals, and groups of tokens
between brackets. A mark is a single character; it is joined when another mark follows it without
a gap, so that two of them can spell one operator.
-/

set_option autoImplicit false

namespace ProtoSchema.Derive

inductive Bracket where
  | round | square | curly
  deriving DecidableEq, Repr

namespace Bracket

def opening : Bracket → Char
  | round => '('
  | square => '['
  | curly => '\x7b'

def closing : Bracket → Char
  | round => ')'
  | square => ']'
  | curly => '\x7d'

end Bracket

/-- A token. -/
inductive Token where
  | word (name : String)
  | mark (character : Char) (joined : Bool)
  /-- A literal as it is spelled. -/
  | literal (spelling : String)
  | group (bracket : Bracket) (content : List Token)
  deriving Repr, Inhabited

/-- Code as the spellings of its tokens; brackets are tokens of their own. -/
abbrev Code := List String

def Bracket.around (b : Bracket) (code : Code) : Code :=
  b.opening.toString :: code ++ [b.closing.toString]

namespace Token

mutual

def code : Token → Code
  | word name => [name]
  | mark c _ => [c.toString]
  | literal spelling => [spelling]
  | group b content => b.around (codeAll content)

def codeAll : List Token → Code
  | [] => []
  | t :: rest => code t ++ codeAll rest

end

mutual

/-- The number of tokens, those inside groups included. -/
def size : Token → Nat
  | group _ content => sizeAll content + 1
  | _ => 1

/-- The number of tokens of a sequence, those inside groups included. -/
def sizeAll : List Token → Nat
  | [] => 0
  | t :: rest => size t + sizeAll rest

end

end Token

end ProtoSchema.Derive
