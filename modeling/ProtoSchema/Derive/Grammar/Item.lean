import ProtoSchema.Derive.Grammar.Member

/-!
# Items

Items are what stands on its own in code: functions, types, traits and their implementations,
imports, constants and the like. Which item stands somewhere is told by its words behind those that
say who may see it.
-/

set_option autoImplicit false

namespace ProtoSchema.Derive.Grammar

open Scan

inductive ItemKind where
  | function | externalLibrary | foreign | imports | variable | constant | module | type | struct
  | enum | union
  | trait
  /-- A trait, or another name for some bounds. -/
  | traitOrAlias
  | implementation
  /-- The definition of a generator. -/
  | generator
  /-- Code for a generator that makes items. -/
  | generated

/-! ## Imports and outside code

Nothing of an import is kept but whether a double colon stands in front of one inside braces. -/

/-- The new name behind the word `as`, if there is one. -/
def newName (unnamed : Scan Unit) : Scan Unit := do
  if ← accept "as" then
    if !(← acceptAny [.name, "_"]) then unnamed

/-- What is imported: a path that ends with a name, with a star or with several imports in braces. A
leading double colon may stand inside braces when `absolute` says so. Whether such a double colon
was found. -/
def imports (r : Readers) (absolute : Bool) : Scan Bool := do
  let starts : List Front := [.name, "self", "super", "crate", "try"]
  if ← acceptAny starts then
    if ← accept "::" then
      let _ ← r.imports false
    else newName (expected "identifier or underscore")
    return false
  else if ← accept "*" then return false
  else if ← sees (.group .curly) then
    let found ← inside .curly <| separated "," atEnd do
      let leading ← if absolute then accept "::" else pure false
      return (← r.imports (absolute && !leading)) || leading
    return found.contains true
  else expectedOneOf (starts ++ [.spelled "*", .group .curly])

/-- The import of something; whether a double colon stands in front of an import inside braces. -/
def importItem (r : Readers) : Scan Bool := do
  let _ ← visibility
  demand "use"
  let leading ← accept "::"
  let inner ← r.imports !leading
  demand ";"
  return inner

def externalLibrary : Scan Unit := do
  let _ ← visibility
  demand "extern"
  demand "crate"
  if !(← accept "self") then
    let _ ← name
  newName (missing .name)
  demand ";"

def foreignBlock (r : Readers) : Scan Unit := do
  let _ ← accept "unsafe"
  demand "extern"
  let _ ← accept .text
  inside .curly do
    innerAttributes r
    upToEnd (foreignMember r)

def moduleItem (r : Readers) : Scan Unit := do
  let _ ← visibility
  let _ ← accept "unsafe"
  demand "mod"
  if !(← accept "try") then
    let _ ← name
  if ← sees (.group .curly) then
    inside .curly do
      innerAttributes r
      upToEnd do
        let _ ← attributes r
        r.item
  else if !(← accept ";") then expectedOneOf [";", .group .curly]

/-! ## Values -/

/-- A function; whether it has no body. -/
def functionItem (r : Readers) : Scan Bool := do
  let _ ← visibility
  let _ ← signature r false
  if ← accept ";" then return true
  else
    body r
    return false

/-- A variable; whether it has no type or no value. -/
def variableItem (r : Readers) : Scan Bool := do
  let _ ← visibility
  demand "static"
  let _ ← accept "mut"
  let _ ← name
  if ← accept "=" then
    let _ ← r.expression true
    demand ";"
    return true
  else
    demand ":"
    let _ ← r.type true
    if ← accept ";" then return true
    else
      demand "="
      let _ ← r.expression true
      demand ";"
      return false

/-- A constant; whether it has parameters, conditions, or no value. -/
def constantItem (r : Readers) : Scan Bool := do
  let _ ← visibility
  demand "const"
  let (generic, undefined) ← constantDeclaration r
  return generic || undefined

/-! ## Types and traits

Items that hold members read them as such, and those that are declarations are read as far as a
declaration is. -/

def structItem (r : Readers) : Scan Unit := do
  let _ ← visibility
  demand "struct"
  let _ ← name
  let _ ← parameters r
  structBody r

def enumItem (r : Readers) : Scan Unit := do
  let _ ← visibility
  demand "enum"
  let _ ← name
  let _ ← parameters r
  let _ ← conditions r
  inside .curly (commaSeparated (variant r))

def unionItem (r : Readers) : Scan Unit := do
  let _ ← visibility
  demand "union"
  let _ ← name
  let _ ← parameters r
  let _ ← conditions r
  namedFields r

/-- A trait behind its parameters. -/
def traitBody (r : Readers) : Scan Unit := do
  if ← acceptUnwritten ":" then
    let stop := seesAny ["where", .group .curly]
    let (found, written) ← unwritten (separated "+" stop (r.bound false true))
    if !found.isEmpty then write (.mark ':' false :: written)
  let _ ← conditions r
  inside .curly do
    innerAttributes r
    upToEnd (traitMember r)

def traitItem (r : Readers) : Scan Unit := do
  let _ ← visibility
  for word in ["unsafe", "auto"] do
    let _ ← accept word
  demand "trait"
  let _ ← name
  let _ ← parameters r
  traitBody r

/-- A trait, or another name for some bounds. -/
def traitOrAlias (r : Readers) : Scan Unit := do
  let _ ← visibility
  demand "trait"
  let _ ← name
  let _ ← parameters r
  if ← seesAny [.group .curly, ":", "where"] then traitBody r
  else if ← accept "=" then
    let _ ← separated "+" (seesAny ["where", ";"]) (r.bound false true)
    let _ ← conditions r
    demand ";"
  else expectedOneOf [.group .curly, ":", "where", "="]

/-- Whether an angle bracket opens parameters here and not a path. -/
def seesParameters : Scan Bool := do
  let behindName : List Front := [">", ",", "="]
  let named := (← seesSecond .lifetime) || (← seesSecond .name)
  let closed := (← behindName.anyM seesThird) || ((← seesThird ":") && !(← seesThird "::"))
  let other : List Front := [">", "#", "const"]
  return (← sees "<") && ((← other.anyM seesSecond) || (named && closed))

/-- An implementation; whether it is one that the language of today does not know. -/
def implementation (r : Readers) : Scan Bool := do
  let visible ← visibility
  let _ ← accept "default"
  let _ ← accept "unsafe"
  demand "impl"
  if ← seesParameters then
    let _ ← parameters r
  let constant := (← sees "const") || ((← sees "?") && (← seesSecond "const"))
  if constant then
    let _ ← accept "?"
    demand "const"
  let negative := (← sees "!") && !(← seesSecond (.group .curly))
  if negative then skip 1
  let first ← r.type true
  let special ←
    if ← accept "for" then
      let _ ← r.type true
      pure <|
        match first with
        | .path p => p.qualified
        | _ => true
    else if negative then refuse .negativeImplementation
    else pure false
  let _ ← conditions r
  inside .curly do
    innerAttributes r
    upToEnd (implementationMember r)
  return visible || constant || special

/-! ## Generators -/

def generatorItem : Scan Unit := do
  let _ ← visibility
  demand "macro"
  let _ ← name
  let parametrized ← accept (.group .round)
  if !(← accept (.group .curly)) then
    expectedOneOf (if parametrized then [.group .curly] else [.group .round, .group .curly])

/-- Code for a generator that makes items; a name may stand in front of the code. -/
def generatedItem : Scan Unit := do
  plainPath
  demand "!"
  let _ ← acceptAny ["try", .name]
  if (← invocation) != .curly then demand ";"

/-! ## Items -/

/-- Which item stands behind the word for outside code. -/
def outsideKind : Scan ItemKind := do
  skip 1
  if ← sees "crate" then return .externalLibrary
  else if ← sees (.group .curly) then return .foreign
  else if ← accept .text then
    if ← sees (.group .curly) then return .foreign else expectedOneOf [.group .curly]
  else expectedOneOf ["crate", .group .curly, .text]

/-- Which item stands behind the word that lifts checks. -/
def uncheckedKind : Scan ItemKind := do
  skip 1
  if (← sees "trait") || ((← sees "auto") && (← seesSecond "trait")) then return .trait
  else if ← sees "impl" then return .implementation
  else if ← sees "extern" then return .foreign
  else if ← sees "mod" then return .module
  else
    let words : List Front := ["trait", "auto", "impl", "extern", "mod"]
    let tokens := (← get).ahead
    expectedOneOf (words.filter fun w ↦ !w.startsOff tokens)

def itemKind : Scan ItemKind := do
  let visible ← visibility
  if (← sees "fn") || (← seesSignature false) then return .function
  else if ← sees "extern" then outsideKind
  else if ← sees "use" then return .imports
  else if ← sees "static" then return .variable
  else if ← sees "const" then return .constant
  else if ← sees "unsafe" then uncheckedKind
  else if ← sees "mod" then return .module
  else if ← sees "type" then return .type
  else if ← sees "struct" then return .struct
  else if ← sees "enum" then return .enum
  else if (← sees "union") && (← seesSecond .name) then return .union
  else if ← sees "trait" then return .traitOrAlias
  else if (← sees "auto") && (← seesSecond "trait") then return .trait
  else if (← sees "impl") || ((← sees "default") && !(← seesSecond "!")) then
    return .implementation
  else if ← sees "macro" then return .generator
  else if !visible && (← seesAny generatorStarts) then return .generated
  else
    let words : List Front := ["fn", "extern", "use", "static", "const", "unsafe", "mod", "type",
      "struct", "enum", "union", "trait", "auto", "impl", "default", "macro"]
    let tokens := (← get).ahead
    let absent := words.filter fun w ↦ !w.startsOff tokens
    expectedOneOf (if visible then absent else absent ++ generatorStarts)

/-- An item behind its attributes. -/
def item (r : Readers) : Scan Unit := do
  let _ ← keptIf id do
    match ← peeking itemKind with
    | .function => functionItem r
    | .externalLibrary =>
      externalLibrary
      return false
    | .foreign =>
      foreignBlock r
      return false
    | .imports => importItem r
    | .variable => variableItem r
    | .constant => constantItem r
    | .module =>
      moduleItem r
      return false
    | .type =>
      let d ← typeDeclaration r false .beforeDefinition
      return d.colon || !d.defined
    | .struct =>
      structItem r
      return false
    | .enum =>
      enumItem r
      return false
    | .union =>
      unionItem r
      return false
    | .trait =>
      traitItem r
      return false
    | .traitOrAlias =>
      traitOrAlias r
      return false
    | .implementation => implementation r
    | .generator =>
      generatorItem
      return true
    | .generated =>
      generatedItem
      return false

end ProtoSchema.Derive.Grammar
