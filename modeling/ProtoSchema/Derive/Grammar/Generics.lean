import ProtoSchema.Derive.Grammar.Attribute

/-!
# Bounds, parameters and conditions

What a type is bound by, the parameters of a declaration between angle brackets, and the conditions
behind the word `where`. Lists without members are not written out.
-/

set_option autoImplicit false

namespace ProtoSchema.Derive.Grammar

open Scan

/-! ## Parameters -/

/-- The bounds behind a colon, if there is a colon. Without bounds, no colon is written out. -/
def boundsOfParameter {α : Type} (stop : Scan Bool) (bound : Scan α) : Scan Unit := do
  if ← acceptUnwritten ":" then
    let (found, written) ← unwritten (bounds stop bound)
    if found then write (.mark ':' false :: written)

/-- A lifetime, which must stand here. -/
def lifetime : Scan Unit := demand .lifetime

def lifetimeParameter : Scan Unit := do
  lifetime
  boundsOfParameter (do return (← atEnd) || (← seesAny [",", ">"])) lifetime

def typeParameter (r : Readers) : Scan Unit := do
  let _ ← name
  boundsOfParameter (do return (← atEnd) || (← seesAny [",", ">", "="])) (r.bound false true)
  if ← accept "=" then
    let _ ← r.type true

def constantParameter (r : Readers) : Scan Unit := do
  demand "const"
  let _ ← name
  demand ":"
  let _ ← r.type true
  if ← accept "=" then constantArgument r

/-- The parameters of a declaration, if there are any. -/
def parameters (r : Readers) : Scan Nat := do
  if !(← acceptUnwritten "<") then return 0
  let (found, written) ← unwritten (angleList do
    let _ ← attributes r
    if ← sees .lifetime then
      lifetimeParameter
      return (true, ())
    else
      if ← sees .name then typeParameter r
      else if ← sees "const" then constantParameter r
      else if !(← accept "_") then expectedOneOf [.lifetime, .name, "const"]
      return (false, ()))
  if !found.isEmpty then write (.mark '<' false :: written)
  return found.length

/-- The parameters that a bound or a type holds for, if there are any; whether there are. -/
def binder (r : Readers) : Scan Bool := do
  if ← accept "for" then
    demand "<"
    let _ ← separated "," (sees ">") do
      let _ ← attributes r
      if ← sees .name then typeParameter r
      else if ← sees .lifetime then lifetimeParameter
      else if ← sees "const" then constantParameter r
      else expectedOneOf [.name, .lifetime, "const"]
    demand ">"
    return true
  else return false

/-! ## Bounds

A bound is a lifetime, the parameters that an opaque type captures, or a trait, in front of which
may stand what loosens it. -/

/-- The parameters that an opaque type captures. -/
def captures : Scan Unit := do
  demand "use"
  demand "<"
  let _ ← captured
where
  /-- The captured parameters; what stands between them is told more exactly. -/
  captured : Scan (List (Unit × List Token)) := angleList do
    let isLifetime ← sees .lifetime
    if !(← acceptAny [.lifetime, .name, "Self"]) then expectedOneOf [.lifetime, .name, ">"]
    if !(← seesAny [",", ">"]) then expectedOneOf [",", ">"]
    return (isLifetime, ())

/-- A trait that something is bound by, with what stands in front of it; whether the bound holds on
a condition on constants, which must be allowed. -/
def traitBound (r : Readers) (constant : Bool) : Scan Bool := do
  let (bound, binding) ← unwritten (binder r)
  let conditional ← sees (.group .square)
  let unconditional ← sees "const"
  if conditional then inside .square (demand "const")
  else if unconditional then skip 1
  if (conditional || unconditional) && !constant then refuse (.misplacedConstant conditional)
  let optional ← accept "?"
  write binding
  if optional && !bound then
    let _ ← binder r
  let p ← wordPath r false
  if p.takesParentheses && (← seesRoundArguments) then
    let _ ← roundArguments r
  return conditional || unconditional

def bound (r : Readers) (capture constant : Bool) : Scan BoundForm := do
  if ← accept .lifetime then return .lifetime
  else if ← sees "use" then
    captures
    if !capture then refuse .misplacedCapture
    return .capture
  else
    keptIf (· == .constant) do
      let conditional ←
        if ← sees (.group .round) then inside .round (traitBound r constant)
        else traitBound r constant
      return if conditional then .constant else .trait

/-- Bounds of a type; a plus may join them when `plus` says so. -/
def boundsOfType (r : Readers) (plus capture constant : Bool) : Scan (List BoundForm) := do
  let usual : List Front := [.anyWord, "::", "?", .lifetime, .group .round]
  let further := if constant then usual ++ [.group .square] else usual
  loop (fun found ↦ do
    let found := (← r.bound capture constant) :: found
    if plus && (← sees "+") then
      skip 1
      return if ← seesAny further then .yield found else .done found
    else return .done found) []

/-! ## Conditions -/

/-- Whether what stands here ends a list of conditions. -/
def endsConditions : Scan Bool := do
  return (← atEnd) || (← seesAny [.group .curly, ",", ";", "="])
    || ((← sees ":") && !(← sees "::"))

def condition (r : Readers) : Scan Unit := do
  if (← sees .lifetime) && (← seesSecond ":") then
    skip 3
    let _ ← bounds (do return (← endsConditions) || (← sees ":")) lifetime
  else
    let _ ← binder r
    let _ ← r.type true
    demand ":"
    let _ ← bounds endsConditions (r.bound false true)

/-- The conditions of a declaration, if there are any; whether the word for them was found. -/
def conditions (r : Readers) : Scan Bool := do
  if ← acceptUnwritten "where" then
    let (found, written) ← unwritten (loop (fun found ↦ do
      if ← endsConditions then return .done found
      condition r
      return if ← accept "," then .yield true else .done true) false)
    if found then write (.word "where" :: written)
    return true
  else return false

end ProtoSchema.Derive.Grammar
