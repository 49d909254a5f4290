import ProtoSchema.Derive.Grammar.Statement

/-!
# Functions and fields

What the different kinds of items share: who may see them, how a function is declared, and the
fields of a type.
-/

set_option autoImplicit false

namespace ProtoSchema.Derive.Grammar

open Scan

/-- Who may see an item, if that is told; whether it is. -/
def visibility : Scan Bool := do
  if !(← accept "pub") then return false
  match (← get).ahead with
  | .group .round [.word within] :: _ =>
    if ["crate", "self", "super"].contains within then skip 1
  | .group .round (.word "in" :: _) :: _ =>
    inside .round do
      skip 1
      plainPath
  | _ => pure ()
  return true

/-! ## Functions -/

def receiver (r : Readers) : Scan Unit := do
  let borrowed ← accept "&"
  if borrowed then
    let _ ← accept .lifetime
  let _ ← accept "mut"
  demand "self"
  if !borrowed && (← sees ":") then
    skip 1
    let _ ← r.type true

/-- A parameter of a function that is not the instance; whether it stands for any number of further
ones. A type alone is the type of a parameter without a name. -/
def parameter (r : Readers) : Scan Bool := do
  if (← sees .name) && (← seesSecond "<") then
    write [.word "_", .mark ':' false]
    let _ ← r.type true
    return false
  else
    let _ ← r.pattern
    demand ":"
    if ← accept "..." then return true
    else
      let _ ← r.type true
      return false

/-- The parameters of a function; the first of them may be the instance. -/
def functionParameters (r : Readers) : Scan Unit := do
  let _ ← loop (fun (first, received) ↦ do
    if ← atEnd then return .done (first, received)
    let _ ← attributes r
    let isReceiver ←
      if ← sees "..." then pure false else pure (← attempt (receiver r)).isSome
    if isReceiver then
      if received then refuse .secondReceiver
      if !first then refuse .lateReceiver
    let variadic ←
      if isReceiver then pure false
      else if ← accept "..." then pure true
      else parameter r
    if ← atEnd then return .done (false, isReceiver)
    demand ","
    if variadic then return .done (false, received)
    return .yield (false, received || isReceiver)) (true, false)

/-- Whether the signature of a function stands here; it may say that the function is safe when
`safe` says so. -/
def seesSignature (safe : Bool) : Scan Bool := peeking do
  for word in ["const", "async"] do
    let _ ← accept word
  if safe && (← sees "safe") then skip 1
  else
    let _ ← accept "unsafe"
  convention
  sees "fn"

/-- The signature of a function; whether it says that the function is safe, which only `safe`
allows. -/
def signature (r : Readers) (safe : Bool) : Scan Bool := do
  for word in ["const", "async"] do
    let _ ← accept word
  let saysSafe := !(← accept "unsafe") && safe && (← sees "safe")
  if saysSafe then skip 1
  convention
  demand "fn"
  let _ ← name
  let _ ← parameters r
  inside .round (functionParameters r)
  let _ ← result r true
  let _ ← conditions r
  return saysSafe

/-! ## Fields -/

def fieldType (r : Readers) (unnamed : Bool) : Scan TypeForm := do
  let group := (← sees "struct") || ((← sees "union") && (← seesSecond (.group .curly)))
  if unnamed && group then
    kept do
      skip 1
      inside .curly (commaSeparated r.field)
      return .other
  else r.type true

/-- A field with a name, or with a low line in its place. -/
def namedField (r : Readers) : Scan Unit := do
  let _ ← attributes r
  let _ ← visibility
  let unnamed ← accept "_"
  if !unnamed then
    let _ ← name
  demand ":"
  let _ ← fieldType r unnamed

def namedFields (r : Readers) : Scan Unit := do inside .curly (commaSeparated r.field)

def positionalFields (r : Readers) : Scan Unit := do
  inside .round <| commaSeparated do
    let _ ← attributes r
    let _ ← visibility
    let _ ← r.type true

/-- The conditions and the fields of a struct. -/
def structBody (r : Readers) : Scan Unit := do
  let conditioned ← conditions r
  let starts : List Front := if conditioned then [] else ["where", .group .round]
  if !conditioned && (← sees (.group .round)) then
    positionalFields r
    let conditioned ← conditions r
    if !(← accept ";") then expectedOneOf (if conditioned then [";"] else ["where", ";"])
  else if ← sees (.group .curly) then namedFields r
  else if !(← accept ";") then expectedOneOf (starts ++ [.group .curly, .spelled ";"])

/-- A variant of an enum. It is written out without what says who may see it. -/
def variant (r : Readers) : Scan Unit := do
  let _ ← attributes r
  let _ ← unwritten visibility
  let _ ← name
  if ← sees (.group .curly) then namedFields r
  else if ← sees (.group .round) then positionalFields r
  if ← accept "=" then
    let _ ← r.expression true

end ProtoSchema.Derive.Grammar
