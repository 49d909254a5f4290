import ProtoSchema.Derive.Scan

/-!
# What is kept of code

Attributes and types may hold any code: expressions, statements and whole items. All of it is
recognised, so that what follows is found and so that what is no code is refused, but little is
kept: of an expression, whether it is a literal or a negation, and of a type, whether it is a path
and which words the path has. Otherwise a form tells only what the grammar itself asks for.
-/

set_option autoImplicit false

namespace ProtoSchema.Derive

/-- An argument between angle brackets. -/
inductive Argument where
  | type (written : List Token)
  /-- A lifetime, a constant, or an argument with a name. -/
  | other
  deriving Repr

/-- The arguments of a word of a path. -/
inductive Arguments where
  | none
  | angle (arguments : List Argument)
  | round
  deriving Repr

/-- Whether there are no arguments, be it between brackets. -/
def Arguments.isEmpty : Arguments → Bool
  | none => true
  | angle arguments => arguments.isEmpty
  | round => false

structure Segment where
  name : String
  arguments : Arguments
  deriving Repr

/-- A path: words joined by double colons. -/
structure PathForm where
  /-- Whether the path starts at a type between angle brackets. -/
  qualified : Bool
  /-- Whether a double colon stands in front. -/
  absolute : Bool
  segments : List Segment
  deriving Repr

namespace PathForm

/-- Whether no word of the path has arguments. -/
def isPlain (p : PathForm) : Bool := p.segments.all (·.arguments matches .none)

/-- Whether the last word has no arguments, so that some in parentheses may follow. -/
def takesParentheses (p : PathForm) : Bool :=
  (p.segments.getLast?.map fun s ↦ s.arguments.isEmpty).getD false

/-- The path with a last word that has arguments in parentheses. -/
def withParentheses (p : PathForm) : PathForm :=
  match p.segments.getLast? with
  | some last => { p with segments := p.segments.dropLast ++ [{ last with arguments := .round }] }
  | none => p

/-- Whether the path is a single word, which may have arguments in angle brackets. -/
def isWord (p : PathForm) : Bool :=
  !p.qualified && !p.absolute &&
    match p.segments with
    | [s] => !(s.arguments matches .round)
    | _ => false

end PathForm

inductive TypeForm where
  | path (p : PathForm)
  | parenthesized
  /-- Bounds without a word in front that says so; `lone` tells that there is a single one. -/
  | bounds (lone : Bool)
  | other
  deriving Repr

/-- What a type can be bound by. -/
inductive BoundForm where
  | trait
  | lifetime
  /-- The parameters that an opaque type captures. -/
  | capture
  /-- A trait with a condition on constants. -/
  | constant
  deriving DecidableEq, Repr

inductive PatternForm where
  /-- A range without one of its ends. -/
  | openRange
  | rest
  | other
  deriving DecidableEq, Repr

/-- An expression, as far as it counts. -/
inductive Expression where
  | literal (l : Literal)
  | negation (e : Expression)
  /-- Two operands that are compared. -/
  | comparison
  | range
  /-- Code for a generator, in brackets behind its name. -/
  | invocation (bracket : Bracket)
  /-- What ends with its block, so that nothing need follow before the next statement. -/
  | block
  | other
  deriving DecidableEq, Repr

/-- How tightly operators bind, the loosest first. -/
inductive Precedence where
  | jump | assign | range | or | and | condition | compare | bitOr | bitXor | bitAnd | shift | sum
  | product | cast
  deriving DecidableEq, Repr

namespace Precedence

/-- The place in the order. -/
def rank : Precedence → Nat
  | jump => 0
  | assign => 1
  | range => 2
  | or => 3
  | and => 4
  | condition => 5
  | compare => 6
  | bitOr => 7
  | bitXor => 8
  | bitAnd => 9
  | shift => 10
  | sum => 11
  | product => 12
  | cast => 13

end Precedence

/-- Readers of the parts of code that can hold one another. Each reads what is at most so deep as it
was made for. -/
structure Readers where
  /-- A type; a plus may join bounds to it when `plus` says so. -/
  type : (plus : Bool) → Scan TypeForm
  /-- A bound; `capture` and `constant` tell which of the rarer bounds may stand here. -/
  bound : (capture constant : Bool) → Scan BoundForm
  /-- A pattern without alternatives. -/
  pattern : Scan PatternForm
  /-- An operand with its signs; a brace behind a path belongs to it when `braces` says so. -/
  operand : (braces : Bool) → Scan Expression
  /-- What operators make of an operand; none of them binds more loosely than `loosest`. -/
  operators : (braces : Bool) → (first : Expression) → (loosest : Precedence) → Scan Expression
  /-- An expression that stands as a statement or as the arm of a match: one that ends with a block
  takes no operator behind it. -/
  standing : Scan Expression
  /-- Statements up to the end. -/
  statements : Scan Unit
  /-- An item behind its attributes. -/
  item : Scan Unit
  /-- A field with a name. -/
  field : Scan Unit
  /-- What is imported; a leading double colon may stand inside braces when `absolute` says so.
  Whether such a double colon was found. -/
  imports : (absolute : Bool) → Scan Bool

namespace Readers

/-- Readers that read nothing. -/
def none : Readers where
  type _ := throw .unreadable
  bound _ _ := throw .unreadable
  pattern := throw .unreadable
  operand _ := throw .unreadable
  operators _ _ _ := throw .unreadable
  standing := throw .unreadable
  statements := throw .unreadable
  item := throw .unreadable
  field := throw .unreadable
  imports _ := throw .unreadable

def expression (r : Readers) (braces : Bool) : Scan Expression := do
  r.operators braces (← r.operand braces) .jump

end Readers

end ProtoSchema.Derive
