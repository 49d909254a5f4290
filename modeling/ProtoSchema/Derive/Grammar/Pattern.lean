import ProtoSchema.Derive.Grammar.Type

/-!
# Patterns

What values are matched with.
-/

set_option autoImplicit false

namespace ProtoSchema.Derive.Grammar

open Scan

/-! ## Parts shared with expressions -/

/-- The name of a generator behind whose exclamation mark code follows, or just a path. The brackets
of the code, if there is some. -/
def pathOrInvocation (r : Readers) : Scan (Option Bracket) := do
  let p ← path r true
  if !p.qualified && p.isPlain && (← seesInvocation) then
    skip 1
    return some (← invocation)
  else return none

def index (minus : Bool) (spelling : String) : Except DeriveError Nat :=
  match integerParts? spelling.toList with
  | none => .error (.grammar (.expected "integer literal" false))
  | some (n, suffix) =>
    if !suffix.isEmpty then .error (.grammar .suffixedIndex)
    else if minus then .error (.grammar .negative)
    else if n < UInt32.size then .ok n
    else .error (.grammar .tooLarge)

/-- Writes out the number of a field with its digits alone. -/
def writeIndex (minus : Bool) (spelling : String) : Scan Unit := do
  write [.literal (toString (← index minus spelling))]

/-- The name or the number of a field; whether it is a name. -/
def member : Scan Bool := do
  if ← accept .name then return true
  else
    match literalAt? (← get).ahead with
    | some (minus, .integer _, spelling) =>
      drop (if minus then 2 else 1)
      writeIndex minus spelling
      return false
    | _ => expected "identifier or integer"

/-- The dots of a range; whether its upper end belongs to it. -/
def rangeDots : Scan Bool := do
  if ← sees "..." then missing "..="
  else if ← accept "..=" then return true
  else if ← accept ".." then return false
  else expectedOneOf [".."]

/-- The dots of a range in a pattern, where three dots may stand for two dots and an equals sign. -/
def patternDots : Scan Bool := do
  if ← acceptUnwritten "..." then
    write [.mark '.' true, .mark '.' true, .mark '=' false]
    return true
  else rangeDots

/-! ## Ranges -/

/-- An end of a range in a pattern, if there is one. -/
def patternEnd (r : Readers) : Scan Bool := do
  if (← atEnd) || (← seesAny ["|", "=", ",", ";", "if"]) || ((← sees ":") && !(← sees "::")) then
    return false
  else if ← accept .literal then return true
  else
    let pathStarts : List Front := [.name, "::", "<", "self", "Self", "super", "crate"]
    if ← seesAny pathStarts then
      let _ ← path r true
      return true
    else if ← accept "const" then
      body r
      return true
    else expectedOneOf ([.literal] ++ pathStarts ++ [.spelled "const"])

def patternRange (r : Readers) : Scan PatternForm := do
  let closed ← patternDots
  if ← patternEnd r then return .other
  else if closed then expected "range upper bound"
  else return .openRange

/-! ## Patterns -/

/-- Patterns of which one must match. -/
def patternAlternatives (r : Readers) : Scan PatternForm := do
  let leading ← accept "|"
  let first ← r.pattern
  loop (fun form ↦ do
    if (← sees "|") && !(← seesAny ["||", "|="]) then
      skip 1
      let _ ← r.pattern
      return .yield .other
    else return .done form) (if leading then .other else first)

/-- A name that a value is given, and a pattern that it must match as well. -/
def namePattern (r : Readers) : Scan Unit := do
  let _ ← accept "ref"
  let _ ← accept "mut"
  if !(← accept "self") then
    let _ ← name
  if ← accept "@" then
    let _ ← r.pattern

/-- A field of a pattern for a struct: a name, or a member and a pattern for it. -/
def fieldPattern (r : Readers) : Scan Unit := do
  let boxed ← accept "box"
  let byReference ← accept "ref"
  let mutable ← accept "mut"
  if boxed || byReference || mutable then
    let _ ← name
  else
    let named ← member
    if !named || (← sees ":") then
      demand ":"
      let _ ← patternAlternatives r

def fieldPatterns (r : Readers) : Scan Unit := do
  whileDone do
    if ← atEnd then return false
    let _ ← attributes r
    if ← accept ".." then return false
    fieldPattern r
    if ← atEnd then return false
    demand ","
    return true

/-- A pattern that starts with a path. -/
def pathPattern (r : Readers) : Scan PatternForm := do
  if (← pathOrInvocation r).isSome then return .other
  else if ← sees (.group .curly) then
    inside .curly (fieldPatterns r)
    return .other
  else if ← sees (.group .round) then
    inside .round (commaSeparated (patternAlternatives r))
    return .other
  else if ← sees ".." then patternRange r
  else return .other

/-- A pattern in square brackets, where a range must have both of its ends. -/
def slicePattern (r : Readers) : Scan Unit := do
  inside .square <| commaSeparated do
    if (← patternAlternatives r) = .openRange then refuse .unparenthesizedRange

/-- Whether a pattern stands here that starts with a path. -/
def seesPathPattern : Scan Bool := do
  let behindName : List Front := ["::", "!", .group .curly, .group .round, ".."]
  let second ← behindName.anyM seesSecond
  return ((← sees .name) && second) || ((← sees "self") && (← seesSecond "::"))
    || (← seesAny ["::", "<", "Self", "super", "crate"])

def pattern (r : Readers) : Scan PatternForm := do
  if ← seesPathPattern then pathPattern r
  else if ← accept "_" then return .other
  else if ← accept "box" then
    kept (r.pattern *> pure .other)
  else if ← seesAny ["-", .literal, "const"] then
    let _ ← patternEnd r
    if ← sees ".." then patternRange r else return .other
  else if ← seesAny ["ref", "mut", "self", .name] then
    namePattern r
    return .other
  else if ← accept "&" then
    let _ ← accept "mut"
    let _ ← r.pattern
    return .other
  else if ← sees (.group .round) then
    inside .round (commaSeparated (patternAlternatives r))
    return .other
  else if ← sees (.group .square) then
    slicePattern r
    return .other
  else if (← sees "..") && !(← sees "...") then
    let closed ← rangeDots
    if ← patternEnd r then return .openRange
    else if closed then expected "range upper bound"
    else return .rest
  else
    let dots : List Front := if ← sees ".." then [] else [".."]
    let others : List Front :=
      [.name, "::", "<", "_", .literal, "const", "ref", "mut", "&", .group .round, .group .square]
    expectedOneOf (others ++ dots ++ [.spelled "const"])

end ProtoSchema.Derive.Grammar
