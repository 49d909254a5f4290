import ProtoSchema.Derive.Grammar.Expression

/-!
# Statements

Statements follow one another, most of them with a semicolon behind. One that ends with a block
needs none, nor does the last.
-/

set_option autoImplicit false

namespace ProtoSchema.Derive.Grammar

open Scan

/-- What a statement is that starts with the name of a generator. -/
inductive GeneratorUse where
  | none
  /-- The generator makes an item. -/
  | item
  /-- The generator makes a statement: its code stands in braces and nothing is done to it. -/
  | statement
  deriving DecidableEq

/-- How a generator is used here. -/
def generatorUse : Scan GeneratorUse := peeking do
  if (← attempt plainPath).isSome && (← sees "!") then
    if (← seesSecond .name) || (← seesSecond "try") then return .item
    else if (← seesSecond (.group .curly))
        && !(((← seesThird ".") && !(← seesThird "..")) || (← seesThird "?")) then
      return .statement
    else return .none
  else return .none

/-- Whether a word stands here that starts an item. -/
def seesItem : Scan Bool := do
  if ← seesAny ["pub", "extern", "use", "fn", "mod", "type", "struct", "enum", "trait", "impl",
      "macro"] then return true
  else if ← sees "crate" then return !(← seesSecond "::")
  else if ← sees "static" then return (← seesSecond "mut") || (← seesSecond .name)
  else if ← sees "const" then
    let function ← ["unsafe", "extern", "fn"].anyM fun word ↦ seesThird (.spelled word)
    let closure ← ["static", "move", "|"].anyM fun word ↦ seesSecond (.spelled word)
    return !((← seesSecond (.group .curly)) || closure || ((← seesSecond "async") && !function))
  else if ← sees "unsafe" then return !(← seesSecond (.group .curly))
  else if ← sees "async" then
    ["unsafe", "extern", "fn"].anyM fun word ↦ seesSecond (.spelled word)
  else
    return ((← sees "union") && (← seesSecond .name)) || ((← sees "auto") && (← seesSecond "trait"))
      || ((← sees "default") && ((← seesSecond "unsafe") || (← seesSecond "impl")))

/-- Whether what was written out last is a group in braces. -/
def endsWithBrace : Scan Bool := do
  match (← get).written with
  | .group .curly _ :: _ => return true
  | _ => return false

/-- The word `let`, a pattern, and mostly a value for it. A block behind the word `else` runs when
the pattern does not match. -/
def binding (r : Readers) : Scan Unit := do
  demand "let"
  let _ ← r.pattern
  if ← accept ":" then
    let _ ← r.type true
  if ← accept "=" then
    let _ ← r.expression true
    if !(← endsWithBrace) && (← sees "else") then
      skip 1
      block r
  demand ";"

/-- An expression as a statement; whether a semicolon is still missing. -/
def expressionStatement (r : Readers) : Scan Bool := do
  let e ← r.standing
  if ← accept ";" then return false
  else
    match e with
    | .block | .invocation .curly => return false
    | _ => return true

/-- A statement; whether a semicolon is still missing. -/
def statement (r : Readers) : Scan Bool := do
  let _ ← attributes r
  let generator ← generatorUse
  if generator = .statement then
    plainPath
    skip 2
    let _ ← accept ";"
    return false
  else if ← sees "let" then
    binding r
    return false
  else if (← seesItem) || generator = .item then
    r.item
    return false
  else expressionStatement r

/-- Statements up to the end. -/
def statements (r : Readers) : Scan Unit := do
  whileDone do
    if ← accept ";" then return true
    else if ← atEnd then return false
    else if (← statement r) && !(← atEnd) then refuse .missingSemicolon
    else return true

end ProtoSchema.Derive.Grammar
