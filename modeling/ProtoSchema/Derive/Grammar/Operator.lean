import ProtoSchema.Derive.Grammar.Pattern

/-!
# Operators

Operators between two operands bind more or less tightly; those that compare cannot be chained. A
range takes no further operator. Only what an expression amounts to is kept, so that an operator
makes something that no longer counts of its operands.
-/

set_option autoImplicit false

namespace ProtoSchema.Derive.Grammar

open Scan

/-- The operators between two operands, longer ones first, with how tightly they bind. -/
def binaryOperators : List (String × Precedence) :=
  [("+=", .assign), ("-=", .assign), ("*=", .assign), ("/=", .assign), ("%=", .assign),
    ("^=", .assign), ("&=", .assign), ("|=", .assign), ("<<=", .assign), (">>=", .assign),
    ("&&", .and), ("||", .or), ("<<", .shift), (">>", .shift), ("==", .compare), ("<=", .compare),
    ("!=", .compare), (">=", .compare), ("+", .sum), ("-", .sum), ("*", .product),
    ("/", .product), ("%", .product), ("^", .bitXor), ("&", .bitAnd), ("|", .bitOr),
    (">", .compare), ("<", .compare)]

/-- The operator between two operands that stands here. -/
def binaryOperator? : Scan (Option (String × Precedence)) := do
  let tokens := (← get).ahead
  return binaryOperators.find? fun (o, _) ↦ startsWithMarks o.toList tokens

/-- Whether an equals sign stands here that is no tip of an arrow. -/
def seesAssignment : Scan Bool := do return (← sees "=") && !(← sees "=>")

/-- How tightly the operator that stands here binds. -/
def nextPrecedence : Scan Precedence := do
  match ← binaryOperator? with
  | some (_, level) => return level
  | none =>
    if ← seesAssignment then return .assign
    else if ← sees ".." then return .range
    else if ← sees "as" then return .cast
    else return .jump

/-- The operand behind an operator, with all that binds more tightly than the operator. An
assignment also takes further assignments. -/
def rightOperand (r : Readers) (braces : Bool) (level : Precedence) : Scan Unit := do
  let _ ← loop (fun right ↦ do
    let next ← nextPrecedence
    if level.rank < next.rank || (next == level && level == .assign) then
      let before := (← get).ahead.length
      let right ← r.operators braces right next
      -- Some forms take no operator whatever it binds like.
      if (← get).ahead.length = before then return .done right else return .yield right
    else return .done right) (← r.operand braces)

/-- Whether what stands here ends a range without an upper end. -/
def endsOpenRange (braces : Bool) : Scan Bool := do
  return (← atEnd) || ((← sees ".") && !(← sees "..")) || (!braces && (← sees (.group .curly)))
    || (← seesAny [",", ";", "?", "=>", "=", "+", "/", "%", "^", ">", "<=", "!=", "-=", "*=", "&=",
      "|=", "<<=", "as"])

/-- The dots of a range and its upper end, which may be missing when it is not part of it. -/
def rangeBehind (r : Readers) (braces : Bool) : Scan Unit := do
  let closed ← rangeDots
  if closed || !(← endsOpenRange braces) then rightOperand r braces .range

/-- Refuses what cannot be done to a cast without parentheses. -/
def checkCast : Scan Unit := do
  if (← sees ".") && !(← sees "..") then
    if ← seesSecond "await" then refuse (.castFollowed "`.await`")
    else if (← seesSecond .name) && ((← seesThird (.group .round)) || (← seesThird "::")) then
      refuse (.castFollowed "a method call")
    else refuse (.castFollowed "a field access")
  else if ← sees "?" then refuse (.castFollowed "`?`")
  else if ← sees (.group .square) then refuse (.castFollowed "indexing")
  else if ← sees (.group .round) then refuse (.castFollowed "a function call")

/-- What operators make of an operand; none of them binds more loosely than `loosest`. -/
def operators (r : Readers) (braces : Bool) (first : Expression) (loosest : Precedence) :
    Scan Expression := do
  loop (fun left ↦ do
    if left matches .range then return .done left
    match ← binaryOperator? with
    | some (operator, level) =>
      if level.rank < loosest.rank then return .done left
      if level == .compare && left == .comparison then refuse .chainedComparison
      skip operator.length
      rightOperand r braces level
      return .yield (if level == .compare then .comparison else .other)
    | none =>
      if loosest.rank ≤ Precedence.assign.rank && (← seesAssignment) then
        skip 1
        rightOperand r braces .assign
        return .yield .other
      else if loosest.rank ≤ Precedence.range.rank && (← sees "..") then
        rangeBehind r braces
        return .yield .range
      else if loosest.rank ≤ Precedence.cast.rank && (← sees "as") then
        skip 1
        let _ ← r.type false
        checkCast
        return .yield .other
      else return .done left) first

end ProtoSchema.Derive.Grammar
