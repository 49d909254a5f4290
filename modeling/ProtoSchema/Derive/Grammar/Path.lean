import ProtoSchema.Derive.Grammar.Form

/-!
# Paths

Paths name types and values: words joined by double colons, where a word may carry arguments. In
an expression a double colon must stand before angle brackets, since a bracket alone compares.
Arguments are written out with the lifetimes first.
-/

set_option autoImplicit false

namespace ProtoSchema.Derive.Grammar

open Scan

/-! ## Arguments

The members of a list between angle brackets are read one by one, each with what it is written out
as, and are written out when all of them are known. -/

/-- A member of a list between angle brackets. -/
structure Listed where
  isLifetime : Bool
  written : List Token
  /-- Whether a comma follows. -/
  comma : Bool

/-- The members of a list as they are written out: lifetimes come first. A comma is added where the
last of them had none. -/
def lifetimesFirst (members : List Listed) : List Token :=
  let (lifetimes, others) := members.partition (·.isLifetime)
  let write (members : List Listed) : List Token :=
    members.flatMap fun m ↦ m.written ++ if m.comma then [.mark ',' false] else []
  let ended := (lifetimes.getLast?.map (·.comma)).getD true
  write lifetimes ++ (if ended || others.isEmpty then [] else [.mark ',' false]) ++ write others

/-- Reads a list up to a closing angle bracket, which must follow; each member tells whether it is
a lifetime. -/
def angleList {α : Type} (member : Scan (Bool × α)) : Scan (List (α × List Token)) := do
  let found ← loop (fun found ↦ do
    if ← sees ">" then return .done found
    let ((isLifetime, a), written) ← unwritten member
    if ← sees ">" then return .done ((a, (⟨isLifetime, written, false⟩ : Listed)) :: found)
    let _ ← unwritten (demand ",")
    return .yield ((a, ⟨isLifetime, written, true⟩) :: found)) []
  let found := found.reverse
  write (lifetimesFirst (found.map (·.2)))
  demand ">"
  return found.map fun (a, m) ↦ (a, m.written)

/-- Bounds joined by a plus up to a stop, which may also stand behind a plus; whether there are
any. -/
def bounds {α : Type} (stop : Scan Bool) (bound : Scan α) : Scan Bool := do
  loop (fun found ↦ do
    if ← stop then return .done found
    let _ ← bound
    return if ← accept "+" then .yield true else .done true) false

/-- A constant as an argument: a literal, a name or a block. -/
def constantArgument (r : Readers) : Scan Unit := do
  if !(← acceptAny [.literal, .name]) then
    if ← sees (.group .curly) then inside .curly r.statements else expectedOneOf []

def argument (r : Readers) : Scan (Bool × Bool) := do
  if (← sees .lifetime) && !(← seesSecond "+") then
    skip 2
    return (true, false)
  else if ← seesAny [.literal, .group .curly] then
    constantArgument r
    return (false, false)
  else
    match ← r.type true with
    | .path p =>
      if !p.isWord then return (false, true)
      else if ← accept "=" then
        if ← seesAny [.literal, .group .curly] then constantArgument r
        else
          let _ ← r.type true
        return (false, false)
      else if ← accept ":" then
        let _ ← bounds (seesAny [",", ">"]) (r.bound false true)
        return (false, false)
      else return (false, true)
    | _ => return (false, true)

def arguments (r : Readers) : Scan (List Argument) := do
  demand "<"
  return (← angleList (argument r)).map fun (isType, written) ↦
    if isType then .type written else .other

/-- The result type behind an arrow, if there is an arrow; whether an associated type may follow,
which is so unless the result is a type that goes on. -/
def result (r : Readers) (plus : Bool) : Scan Bool := do
  if ← accept "->" then
    match ← r.type plus with
    | .parenthesized => return true
    | _ => return false
  else return true

/-- Arguments in parentheses with the result behind them. A double colon in front of them, and
empty angle brackets, are not written out. -/
def roundArguments (r : Readers) : Scan Bool := do
  modify fun c ↦ { c with written := withoutEmptyBrackets c.written }
  let _ ← acceptUnwritten "::"
  inside .round (commaSeparated (r.type true))
  result r false
where
  /-- What was written, last token first, without empty angle brackets at the end. -/
  withoutEmptyBrackets : List Token → List Token
    | .mark '>' _ :: .mark '<' _ :: .mark ':' _ :: .mark ':' _ :: rest => rest
    | .mark '>' _ :: .mark '<' _ :: rest => rest
    | written => written

/-- Whether arguments in parentheses stand here. -/
def seesRoundArguments : Scan Bool := do
  return (← sees (.group .round)) || ((← sees "::") && (← seesThird (.group .round)))

/-! ## Paths -/

/-- One word of a path with its arguments. -/
def segment (r : Readers) (inExpression : Bool) : Scan Segment := do
  if ← seesAny ["super", "self", "crate", "try"] then return ⟨← anyWord, .none⟩
  else
    let name ← if ← sees "Self" then anyWord else name
    if !inExpression && (← sees "<") && !(← sees "<=") then
      return ⟨name, .angle (← arguments r)⟩
    else if (← sees "::") && (← seesThird "<") then
      skip 2
      return ⟨name, .angle (← arguments r)⟩
    else return ⟨name, .none⟩

/-- The further words of a path, in front of which the words before them are put. -/
def moreSegments (r : Readers) (inExpression : Bool) (before : List Segment) :
    Scan (List Segment) := do
  let found ← loop (fun found ↦ do
    if (← sees "::") && !(← seesThird (.group .round)) then
      skip 2
      return .yield ((← segment r inExpression) :: found)
    else return .done found) before.reverse
  return found.reverse

def wordPath (r : Readers) (inExpression : Bool) : Scan PathForm := do
  let absolute ← accept "::"
  let first ← segment r inExpression
  return ⟨false, absolute, ← moreSegments r inExpression [first]⟩

def path (r : Readers) (inExpression : Bool) : Scan PathForm := do
  if ← accept "<" then
    let _ ← r.type true
    let before ←
      if ← accept "as" then pure (← wordPath r false).segments else pure []
    demand ">"
    demand "::"
    let found ← loop (fun found ↦ do
      let s ← segment r inExpression
      return if ← accept "::" then .yield (s :: found) else .done (s :: found)) []
    return ⟨true, false, before ++ found.reverse⟩
  else wordPath r inExpression

/-- A path whose words have no arguments. -/
def plainPath : Scan Unit := do
  let _ ← accept "::"
  loop (fun first ↦ do
    if ← acceptAny [.name, "super", "self", "Self", "crate"] then
      return if ← accept "::" then .yield false else .done false
    else if first then
      let _ ← name
      return .done false
    else expected "path segment after `::`") true *> pure ()

/-- The code for a generator, in brackets of any kind. -/
def invocation : Scan Bracket := do
  match (← get).ahead with
  | .group b _ :: _ =>
    skip 1
    return b
  | _ => expected "delimiter"

/-- Whether the exclamation mark of an invocation stands here. -/
def seesInvocation : Scan Bool := do return (← sees "!") && !(← sees "!=")

end ProtoSchema.Derive.Grammar
