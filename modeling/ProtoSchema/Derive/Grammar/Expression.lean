import ProtoSchema.Derive.Grammar.Operator

/-!
# Expressions

What stands between operators: literals, paths, groups, blocks with words in front that control
them, and what is done to these by calls, fields and indices.
-/

set_option autoImplicit false

namespace ProtoSchema.Derive.Grammar

open Scan

/-! ## Calls, fields and indices -/

/-- The numbers of fields that are spelled like a float; whether a last point is left over. -/
def indices (minus : Bool) (spelling : String) : Scan Bool := do
  let parts := (if minus then "-" ++ spelling else spelling).splitOn "."
  let numbers := if parts.getLast? = some "" then parts.dropLast else parts
  for (part, place) in numbers.zipIdx do
    if 0 < place then write [.mark '.' false]
    match part.toList with
    | '-' :: digits => writeIndex true (String.ofList digits)
    | digits => writeIndex false (String.ofList digits)
  return numbers.length < parts.length

def callArguments (r : Readers) : Scan Unit := do
  inside .round (commaSeparated (r.expression true))

/-- The name or number of a field, or a method with its arguments. -/
def fieldOrMethod (r : Readers) : Scan Unit := do
  if ← accept "await" then return
  let named ← member
  if named then
    let explicit ← sees "::"
    if explicit then
      skip 2
      let _ ← arguments r
    if explicit || (← sees (.group .round)) then callArguments r

/-- What stands behind the point of a field or of a method. -/
def behindPoint (r : Readers) : Scan Unit := do
  match literalAt? (← get).ahead with
  | some (minus, .float _, spelling) =>
    drop (if minus then 2 else 1)
    if ← indices minus spelling then
      write [.mark '.' false]
      fieldOrMethod r
  | _ => fieldOrMethod r

/-- Calls, fields, indices and question marks behind what is called or looked into. -/
def trailers (r : Readers) (first : Expression) : Scan Expression := do
  loop (fun e ↦ do
    let isRange := e matches .range
    if ← sees (.group .round) then
      callArguments r
      return .yield .other
    else if !isRange && (← sees ".") && !(← sees "..") then
      skip 1
      behindPoint r
      return .yield .other
    else if ← sees (.group .square) then
      inside .square do
        let _ ← r.expression true
      return .yield .other
    else if !isRange && (← sees "?") then
      skip 1
      return .yield .other
    else return .done e) first

/-! ## Groups -/

/-- The elements of a list, or an element and how often it is repeated. -/
def listContent (r : Readers) : Scan Unit := do
  if ← atEnd then return
  let _ ← r.expression true
  if ← accept ";" then
    let _ ← r.expression true
  else if ← accept "," then commaSeparated (r.expression true)
  else if !(← atEnd) then expected "`,` or `;`"

/-- A field of a struct with its value; a name alone is its own value. -/
def fieldValue (r : Readers) : Scan Unit := do
  let _ ← attributes r
  let named ← member
  if !named || (← sees ":") then
    demand ":"
    let _ ← r.expression true

/-- The fields of a struct; behind two dots may stand what the other fields are taken from. -/
def fieldValues (r : Readers) : Scan Unit := do
  whileDone do
    if ← atEnd then return false
    if ← accept ".." then
      if !(← atEnd) then
        let _ ← r.expression true
      return false
    fieldValue r
    if ← atEnd then return false
    demand ","
    return true

/-- A path, the code of a generator, or a struct with its fields. -/
def pathExpression (r : Readers) (braces : Bool) : Scan Expression := do
  match ← pathOrInvocation r with
  | some bracket => return .invocation bracket
  | none =>
    if braces && (← sees (.group .curly)) then inside .curly (fieldValues r)
    return .other

/-! ## Closures -/

def closureParameter (r : Readers) : Scan Unit := do
  let _ ← attributes r
  let _ ← r.pattern
  if ← accept ":" then
    let _ ← r.type true

def seesClosure : Scan Bool := do
  return (← seesAny ["|", "move", "static"])
    || ((← sees "for") && (← seesSecond "<") && ((← seesThird .lifetime) || (← seesThird ">")))
    || ((← sees "const") && !(← seesSecond (.group .curly)))
    || ((← sees "async") && ((← seesSecond "|") || (← seesSecond "move")))

def closure (r : Readers) (braces : Bool) : Scan Unit := do
  let _ ← binder r
  for word in ["const", "static", "async", "move"] do
    let _ ← accept word
  demand "|"
  let _ ← separated "," (sees "|") (closureParameter r)
  demand "|"
  if ← accept "->" then
    let _ ← r.type true
    block r
  else
    let _ ← r.expression braces

/-! ## Words that control

Each of them is followed by a condition, a block or both. A condition must not start the fields of a
struct, since its brace would be taken for the block. -/

/-- A condition with a block, and further ones behind the word `else`. -/
def conditional (r : Readers) : Scan Unit := do
  whileDone do
    demand "if"
    let _ ← r.expression false
    block r
    if ← accept "else" then
      if ← sees "if" then return true
      else if ← sees (.group .curly) then
        block r
        return false
      else expectedOneOf ["if", .group .curly]
    else return false

def whileLoop (r : Readers) : Scan Unit := do
  demand "while"
  let _ ← r.expression false
  body r

/-- A block that is repeated for what an expression yields. -/
def forLoop (r : Readers) : Scan Unit := do
  demand "for"
  let _ ← patternAlternatives r
  demand "in"
  let _ ← r.expression false
  body r

/-- A word with a block behind it. -/
def wordBody (r : Readers) (word : String) : Scan Unit := do
  demand word
  body r

/-- An arm of a match. A comma must follow it unless it ends with a block. -/
def arm (r : Readers) : Scan Unit := do
  let _ ← attributes r
  let _ ← patternAlternatives r
  if ← accept "if" then
    let _ ← r.expression true
  demand "=>"
  let e ← r.standing
  if !(e matches .block) && !(← atEnd) then demand ","
  else
    let _ ← accept ","

/-- What is matched and the arms that it is matched with. -/
def matching (r : Readers) : Scan Unit := do
  demand "match"
  let _ ← r.expression false
  inside .curly do
    innerAttributes r
    whileDone do
      if ← atEnd then return false
      arm r
      return true

def seesExpression : Scan Bool := do
  let without (f : Front) (fs : List Front) : Scan Bool := do
    return (← sees f) && !(← seesAny fs)
  return (← without .anyWord ["as"])
    || (← seesAny [.group .round, .group .square, .group .curly, .literal, "..", "::", .lifetime,
      "#"])
    || (← without "!" ["!="]) || (← without "-" ["-=", "->"]) || (← without "*" ["*="])
    || (← without "|" ["|="]) || (← without "&" ["&="]) || (← without "<" ["<=", "<<="])

/-- The word that leaves a loop, the label of the loop, and a value for it. A label with a colon
would start a loop of its own, which must stand in parentheses. -/
def breakOut (r : Readers) (braces : Bool) : Scan Unit := do
  demand "break"
  if (← sees .lifetime) && (← seesSecond ":") then
    let _ ← r.expression true
    refuse .unparenthesizedLabel
  let _ ← accept .lifetime
  if (← seesExpression) && (braces || !(← sees (.group .curly))) then
    let _ ← r.expression true

/-- A pattern and the expression that it is matched with, which ends before a connective. -/
def letCondition (r : Readers) (braces : Bool) : Scan Unit := do
  demand "let"
  let _ ← patternAlternatives r
  demand "="
  let _ ← r.operators braces (← r.operand braces) .compare

/-- A label and the loop or block that it names. -/
def labeled (r : Readers) : Scan Unit := do
  lifetime
  demand ":"
  if ← sees "while" then whileLoop r
  else if ← sees "for" then forLoop r
  else if ← sees "loop" then wordBody r "loop"
  else if ← sees (.group .curly) then body r
  else expected "loop or block expression"

/-! ## Operands

An operand is told by its first tokens. Signs in front of it are taken first, and bind less tightly
than what stands behind it. -/

/-- A block with a word in front that says what it is for. -/
def blockExpression (r : Readers) : Scan Unit := do
  if ← sees "if" then conditional r
  else if ← sees "while" then whileLoop r
  else if ← sees "for" then forLoop r
  else if ← sees "loop" then wordBody r "loop"
  else if ← sees "match" then matching r
  else if ← sees "try" then
    skip 1
    block r
  else if ← sees "unsafe" then wordBody r "unsafe"
  else if ← sees "const" then wordBody r "const"
  else if ← sees .lifetime then labeled r
  else body r

/-- What leaves a block, and the value that it leaves with. -/
def leave (r : Readers) (braces : Bool) : Scan Unit := do
  if ← sees "break" then breakOut r braces
  else if ← accept "continue" then
    let _ ← accept .lifetime
  else if ← acceptAny ["return", "yield"] then
    if ← seesExpression then
      let _ ← r.expression true
  else
    demand "become"
    let _ ← kept (r.expression true)

/-- Whether a block stands here that runs later. -/
def seesAsyncBlock : Scan Bool := do
  return (← sees "async")
    && ((← seesSecond (.group .curly)) || ((← seesSecond "move") && (← seesThird (.group .curly))))

def seesPath : Scan Bool := do
  return (← seesAny [.name, "::", "<", "self", "Self", "super", "crate"])
    || ((← sees "try") && ((← seesSecond "!") || (← seesSecond "::")))

/-- An operand without signs and without anything behind it. -/
def atom (r : Readers) (braces : Bool) : Scan Expression := do
  if let some (_, l, _) := literalAt? (← get).ahead then
    demand .literal
    return .literal l
  else if ← seesAsyncBlock then
    skip 1
    let _ ← accept "move"
    block r
    return .other
  else if (← sees "try") && (← seesSecond (.group .curly)) then
    blockExpression r
    return .block
  else if ← seesClosure then
    closure r braces
    return .other
  else if (← sees "builtin") && (← seesSecond "#") then
    skip 2
    let _ ← name
    anyInside .round
    return .other
  else if ← seesPath then pathExpression r braces
  else if ← sees (.group .round) then
    callArguments r
    return .other
  else if ← seesAny ["break", "continue", "return", "become", "yield"] then
    leave r braces
    return .other
  else if ← sees (.group .square) then
    inside .square (listContent r)
    return .other
  else if ← sees "let" then
    letCondition r braces
    return .other
  else if ← seesAny ["if", "while", "for", "loop", "match", "unsafe", "const", .group .curly,
      .lifetime] then
    blockExpression r
    return .block
  else if ← sees ".." then
    rangeBehind r braces
    return .range
  else if ← accept "_" then return .other
  else expected "an expression"

/-- An operand with its signs and with what is done to it. -/
def operand (r : Readers) (braces : Bool) : Scan Expression := do
  let attributed ← attributes r
  if ← accept "&" then
    let raw := (← sees "raw") && ((← seesSecond "mut") || (← seesSecond "const"))
    if raw then skip 1
    let mutable ← accept "mut"
    if raw && !mutable then demand "const"
    let _ ← r.operand braces
    return .other
  else if ← acceptAny ["*", "!"] then
    let _ ← r.operand braces
    return .other
  else if ← accept "-" then return .negation (← r.operand braces)
  else
    let e ← trailers r (← atom r braces)
    if attributed && (e matches .range) then refuse .attributedRange
    return e

/-- An expression that stands as a statement: when it starts with a block it also ends there, unless
a point or a question mark follows. -/
def standing (r : Readers) : Scan Expression := do
  let _ ← attributes r
  let starts :=
    (← seesAny ["if", "while", "loop", "match", "unsafe", .group .curly, .lifetime])
      || ((← sees "for") && !(← seesSecond "<"))
      || ((← seesAny ["try", "const"]) && (← seesSecond (.group .curly)))
  if starts then
    blockExpression r
    if ((← sees ".") && !(← sees "..")) || (← sees "?") then
      r.operators true (← trailers r .block) .jump
    else return .block
  else
    let e ← operand r true
    if e matches .block then return e else r.operators true e .jump

end ProtoSchema.Derive.Grammar
