import ProtoSchema.Derive.Grammar.Generics

/-!
# Types

Types are recognised rather than modelled; all that is kept of a type is whether it is a path. A
plus joins bounds to a type only where no tighter sign, as that of a reference, stands in front.
-/

set_option autoImplicit false

namespace ProtoSchema.Derive.Grammar

open Scan

/-! ## Functions -/

/-- The name of a calling convention, if one is given. -/
def convention : Scan Unit := do
  if ← accept "extern" then
    let _ ← accept .text

/-- A parameter of a function type; only the first may be the instance that a method is called
on. -/
def parameterOfFunctionType (r : Readers) (first : Bool) : Scan Unit := do
  let _ ← keptIf id do
    let mutableSelf := first && (← sees "mut") && (← seesSecond "self")
    if mutableSelf then skip 1
    let named :=
      (← seesSecond ":") && !(← seesSecond "::")
        && ((← seesAny [.name, "_"]) || (first && (← sees "self")))
    let namedSelf := named && (← sees "self")
    if named then skip 2
    if first && !namedSelf && (← sees "mut") && (← seesSecond "self") then
      skip 2
      return true
    else if mutableSelf && !named then
      demand "self"
      return true
    else
      let _ ← r.type true
      return mutableSelf

/-- The parameters of a function type. Dots stand for any number of further ones. -/
def parametersOfFunctionType (r : Readers) : Scan Unit := do
  let _ ← loop (fun first ↦ do
    if ← atEnd then return .done first
    let _ ← attributes r
    let named := (← seesAny [.name, "_"]) && (← seesSecond ":") && (← seesThird "...")
    if named || (← sees "...") then
      if named then skip 2
      demand "..."
      let _ ← accept ","
      return .done first
    parameterOfFunctionType r first
    if ← atEnd then return .done first
    demand ","
    return .yield false) true

def functionType (r : Readers) : Scan Unit := do
  let _ ← accept "unsafe"
  convention
  demand "fn"
  inside .round (parametersOfFunctionType r)
  let _ ← result r false

/-! ## Paths and bounds -/

/-- A path as a type: arguments in parentheses may follow its words. -/
def typePath (r : Readers) : Scan PathForm := do
  loop (fun p ↦ do
    if p.takesParentheses && (← seesRoundArguments) then
      let goesOn ← roundArguments r
      let p := p.withParentheses
      if goesOn then
        return .yield { p with segments := ← moreSegments r false p.segments }
      else return .yield p
    else return .done p) (← path r false)

/-- The bounds of an object type, one of which must be a trait; whether there is only one. -/
def objectBounds (r : Readers) (plus : Bool) : Scan Bool := do
  let found ← boundsOfType r plus false false
  if !found.contains .trait then refuse .objectWithoutTrait
  return found.length == 1

/-- Bounds that further ones follow, each behind a plus. -/
def bindMore (r : Readers) : Scan Bool := do
  loop (fun found ↦ do
    if ← accept "+" then
      let _ ← r.bound false false
      return .yield true
    else return .done found) false

/-- A type that starts with a path: the path itself, code of a generator, or bounds. `binding` holds
the parameters in front of it. -/
def typeOfPath (r : Readers) (plus bound : Bool) (binding : List Token) : Scan TypeForm := do
  let (p, written) ← unwritten (typePath r)
  if !p.qualified && p.isPlain && (← seesInvocation) then
    write written
    skip 1
    let _ ← invocation
    return .other
  write (binding ++ written)
  if p.qualified then return .path p
  else if bound || (plus && (← sees "+")) then
    let joined ← loop (fun joined ↦ do
      if plus && (← sees "+") then
        skip 1
        if ← seesAny [.anyWord, "::", "?", .lifetime, .group .round] then
          let _ ← r.bound false false
          return .yield true
        else return .done true
      else return .done joined) false
    return .bounds !joined
  else return .path p

/-! ## Types in brackets -/

/-- What parentheses hold where a type stands. -/
inductive RoundForm where
  | tuple
  /-- A bound that starts with a question mark. -/
  | optional
  | objectType
  | single (form : TypeForm)

/-- A type in parentheses, or several of them. -/
def roundType (r : Readers) (plus : Bool) : Scan TypeForm := do
  let content ← inside .round do
    if ← atEnd then return RoundForm.tuple
    else if ← sees .lifetime then
      let _ ← objectBounds r true
      return .objectType
    else if ← sees "?" then
      let _ ← traitBound r false
      return .optional
    else
      let first ← r.type true
      if ← accept "," then
        commaSeparated (r.type true)
        return .tuple
      else return .single first
  match content with
  | .tuple => return .other
  | .objectType => return .parenthesized
  | .optional => return .bounds !(← bindMore r)
  | .single first =>
    if plus && (← sees "+") && isBound first then
      let _ ← bindMore r
      return .bounds false
    else return .parenthesized
where
  /-- Whether what stands in parentheses can be one of several bounds. -/
  isBound : TypeForm → Bool
    | .path p => !p.qualified
    | .bounds lone => lone
    | _ => false

/-- What can stand behind the parameters that a type holds for. -/
def boundTypeStarts : List Front :=
  [.name, "fn", "unsafe", "extern", "super", "self", "Self", "crate"]

/-- A type; a plus may join bounds to it when `plus` says so. -/
def type (r : Readers) (plus : Bool) : Scan TypeForm := do
  let (bound, binding) ← unwritten (binder r)
  if bound then
    if !(← seesAny boundTypeStarts) || (← sees "dyn") then expectedOneOf boundTypeStarts
  if ← sees (.group .round) then roundType r plus
  else if ← seesAny ["fn", "unsafe", "extern"] then
    write binding
    functionType r
    return .other
  else if ← seesAny [.name, "super", "self", "Self", "crate", "::", "<"] then
    typeOfPath r plus bound binding
  else if ← sees "dyn" then
    let _ ← keptIf id do
      skip 1
      let starred ← accept "*"
      let _ ← objectBounds r plus
      return starred
    return .other
  else if ← sees (.group .square) then
    inside .square do
      let _ ← r.type true
      if ← accept ";" then
        let _ ← r.expression true
    return .other
  else if ← accept "*" then
    if !(← acceptAny ["const", "mut"]) then expectedOneOf ["const", "mut"]
    let _ ← r.type false
    return .other
  else if ← accept "&" then
    let _ ← accept .lifetime
    let _ ← accept "mut"
    let _ ← r.type false
    return .other
  else if ← acceptAny ["!", "_"] then return .other
  else if ← accept "impl" then
    let found ← boundsOfType r plus true true
    if !(found.contains .trait || found.contains .constant) then refuse .boundWithoutTrait
    return .other
  else if ← sees .lifetime then
    let _ ← objectBounds r true
    return .bounds false
  else
    expectedOneOf ["for", .group .round, "fn", "unsafe", "extern", .name, "::", "<", "dyn",
      .group .square, "*", "&", "!", "impl", "_", .lifetime]

end ProtoSchema.Derive.Grammar
