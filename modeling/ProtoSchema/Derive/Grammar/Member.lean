import ProtoSchema.Derive.Grammar.Function

/-!
# Members of items

What stands in the braces of a trait, of an implementation and of a block of foreign declarations:
functions, constants, types, and code for generators. Members that the language of today does not
know are written out as they stand.
-/

set_option autoImplicit false

namespace ProtoSchema.Derive.Grammar

open Scan

/-- A reading that is repeated up to the end. -/
def upToEnd (p : Scan Unit) : Scan Unit := do
  whileDone do
    if ← atEnd then return false
    p
    return true

/-! ## Types, constants and generators -/

/-- Where the conditions of a type may stand. -/
inductive ConditionPlace where
  | beforeDefinition | afterDefinition | anywhere
  deriving DecidableEq

/-- What the declaration of a type holds that is not everywhere allowed. -/
structure TypeDeclaration where
  colon : Bool
  defined : Bool

/-- The declaration of a type, with bounds or with a definition. -/
def typeDeclaration (r : Readers) (withDefault : Bool) (place : ConditionPlace) :
    Scan TypeDeclaration := do
  let _ ← visibility
  if withDefault then
    let _ ← accept "default"
  demand "type"
  let _ ← name
  let _ ← parameters r
  let colon ← sees ":"
  if ← acceptUnwritten ":" then
    let stop := seesAny ["where", "=", ";"]
    let (found, written) ← unwritten (separated "+" stop (r.bound false true))
    if !found.isEmpty then write (.mark ':' false :: written)
  let conditioned ← if place = .afterDefinition then pure false else conditions r
  let defined ← accept "="
  if defined then
    let _ ← r.type true
  if place != .beforeDefinition && !conditioned then
    let _ ← conditions r
  demand ";"
  return ⟨colon, defined⟩

/-- The declaration of a constant behind its word; whether it has parameters, conditions, or no
value. -/
def constantDeclaration (r : Readers) : Scan (Bool × Bool) := do
  if !(← seesAny [.name, "_"]) then expectedOneOf [.name, "_"]
  let _ ← anyWord
  let generic ← sees "<"
  let _ ← parameters r
  demand ":"
  let _ ← r.type true
  let defined ← accept "="
  if defined then
    let _ ← r.expression true
  let conditioned ← conditions r
  demand ";"
  return (generic || conditioned, !defined)

def generatedMember : Scan Unit := do
  plainPath
  demand "!"
  if (← invocation) != .curly then demand ";"

/-- What the name of a generator can start with. -/
def generatorStarts : List Front := [.name, "self", "super", "crate", "::"]

/-! ## Traits -/

/-- A function of a trait, which may have a body. -/
def traitFunction (r : Readers) : Scan Unit := do
  let _ ← attributes r
  let _ ← signature r false
  if ← sees (.group .curly) then body r
  else if !(← accept ";") then expectedOneOf [.group .curly, ";"]

/-- A constant of a trait, or a function that is one; whether the constant is generic. -/
def traitConstant (r : Readers) : Scan Bool := do
  let functionWords : List Front := ["async", "unsafe", "extern", "fn"]
  if (← seesSecond .name) || (← seesSecond "_") then
    skip 1
    return (← constantDeclaration r).1
  else if ← functionWords.anyM seesSecond then
    traitFunction r
    return false
  else
    skip 1
    expectedOneOf ([.name, .spelled "_"] ++ functionWords)

def traitMember (r : Readers) : Scan Unit := do
  let _ ← keptIf id do
    let _ ← attributes r
    let visible ← visibility
    let special := (← accept "default") || visible
    if (← sees "fn") || (← seesSignature false) then
      traitFunction r
      return special
    else if ← sees "const" then return (← traitConstant r) || special
    else if ← sees "type" then
      let _ ← typeDeclaration r false .afterDefinition
      return special
    else if !special && (← seesAny generatorStarts) then
      generatedMember
      return false
    else
      let words : List Front := ["fn", "const", "type"]
      expectedOneOf (if special then words else words ++ generatorStarts)

/-! ## Implementations

A member of an implementation may tell who may see it. One that lacks its body or its definition is
written out as it stands. -/

inductive MemberKind where
  | function | constant | type | generator

def memberKind : Scan MemberKind := do
  let visible ← visibility
  let isDefault := (← sees "default") && !(← seesSecond "!")
  if isDefault then skip 1
  if (← sees "fn") || (← seesSignature false) then return .function
  else if ← sees "const" then return .constant
  else if ← sees "type" then return .type
  else if !visible && !isDefault && (← seesAny generatorStarts) then return .generator
  else
    let words : List Front := ["fn", "const", "type"]
    if isDefault then expectedOneOf words
    else
      let words := if ← sees "default" then words else .spelled "default" :: words
      expectedOneOf (if visible then words else words ++ generatorStarts)

def implementationMember (r : Readers) : Scan Unit := do
  let _ ← keptIf id do
    let _ ← attributes r
    match ← peeking memberKind with
    | .function =>
      let _ ← visibility
      let _ ← accept "default"
      let _ ← signature r false
      if ← accept ";" then return true
      else
        body r
        return false
    | .constant =>
      let _ ← visibility
      let _ ← accept "default"
      demand "const"
      let (generic, undefined) ← constantDeclaration r
      return generic || undefined
    | .type =>
      let d ← typeDeclaration r true .afterDefinition
      return d.colon || !d.defined
    | .generator =>
      generatedMember
      return false

/-! ## Foreign declarations -/

/-- A foreign function; whether it is one that the language of today does not know. -/
def foreignFunction (r : Readers) : Scan Bool := do
  let _ ← visibility
  let saysSafe ← signature r true
  if ← sees (.group .curly) then
    body r
    return true
  else
    demand ";"
    return saysSafe

/-- A foreign variable; whether it is one that the language of today does not know. -/
def foreignVariable (r : Readers) : Scan Bool := do
  let _ ← visibility
  let saysHowSafe ← acceptAny ["unsafe", "safe"]
  demand "static"
  let _ ← accept "mut"
  let _ ← name
  demand ":"
  let _ ← r.type true
  let valued ← accept "="
  if valued then
    let _ ← r.expression true
  demand ";"
  return saysHowSafe || valued

def foreignKind : Scan MemberKind := do
  let visible ← visibility
  if (← sees "fn") || (← seesSignature true) then return .function
  else if (← sees "static") || ((← seesAny ["unsafe", "safe"]) && (← seesSecond "static")) then
    return .constant
  else if ← sees "type" then return .type
  else if !visible && (← seesAny generatorStarts) then return .generator
  else
    let words : List Front := ["fn", "static", "type"]
    expectedOneOf (if visible then words else words ++ generatorStarts)

def foreignMember (r : Readers) : Scan Unit := do
  let _ ← keptIf id do
    let _ ← attributes r
    match ← peeking foreignKind with
    | .function => foreignFunction r
    | .constant => foreignVariable r
    | .type =>
      let d ← typeDeclaration r false .anywhere
      return d.colon || d.defined
    | .generator =>
      generatedMember
      return false

end ProtoSchema.Derive.Grammar
