import ProtoSchema.Derive.Lexer
import ProtoSchema.Derive.Scan

/-!
# Attributes

An attribute stands in front of what it describes. Its name is a word or a longer path, and behind
the name it has arguments in brackets, a value behind an equals sign, or nothing. Attributes named
`doc` hold lines of documentation, those named `proto` hold settings between commas.
-/

set_option autoImplicit false

namespace ProtoSchema.Derive

open Scan

inductive AttributeForm where
  | bare
  | arguments (content : List Token)
  | value (tokens : List Token)
  deriving Repr

/-- An attribute; a name of more than one word is not kept. -/
structure Attribute where
  name : Option String
  form : AttributeForm
  deriving Repr

namespace Attribute

/-- What the tokens behind the first word of a name make of the name, and the form. -/
def afterName : (name : Option String) → List Token → Attribute
  | name, [] => ⟨name, .bare⟩
  | _, .mark ':' _ :: rest => afterName none rest
  | name, .mark '=' _ :: rest => ⟨name, .value rest⟩
  | name, .group _ content :: _ => ⟨name, .arguments content⟩
  | _, _ :: rest => afterName none rest

/-- The attribute inside its brackets. -/
def ofContent : List Token → Attribute
  | .word name :: rest => afterName (some name) rest
  | content => afterName none content

/-- The line of documentation that an attribute holds, if it holds one; a blank at its start, which
sets the text off from the comment sign, is not part of it. -/
def docLine? (a : Attribute) : Option (List Char) :=
  match a.name, a.form with
  | some "doc", .value [.literal spelling] =>
    match Literal.ofSpelling spelling with
    | .text line =>
      match line.toList with
      | ' ' :: rest => some rest
      | characters => some characters
    | _ => none
  | _, _ => none

end Attribute

/-- The lines joined, without the white space around the whole; nothing when only that is left. -/
def documentation? (attributes : List Attribute) : Option String :=
  let joined := ['\n'].intercalate (attributes.filterMap Attribute.docLine?)
  let trimmed := Text.trimEnd (joined.dropWhile Text.isBlank)
  if trimmed.isEmpty then none else some (String.ofList trimmed)

/-- Takes the attributes that stand here. -/
def declaredAttributes : Scan (List Attribute) := do
  let found ← loop (fun found ↦ do
    match (← get).ahead with
    | .mark '#' _ :: .group .square content :: _ =>
      skip 2
      return .yield (Attribute.ofContent content :: found)
    | _ => return .done found) []
  return found.reverse

/-! ## Settings

The settings of all attributes are read as if they stood in one, and each may be given once. -/

/-- The name in front of a setting; a name of more than one word is not kept. -/
def settingName : Scan (Option String) := do
  let leading ← accept "::"
  match (← get).ahead with
  | .word name :: _ =>
    skip 1
    let longer ← loop (fun longer ↦ do
      if ← accept "::" then
        let _ ← anyWord
        return .yield true
      else return .done longer) leading
    return if longer then none else some name
  | [] => expected "nested attribute"
  | _ => if ← sees .literal then throw .literalSetting else throw .strangeSetting

/-- Reads settings between commas up to the end; `one` takes the value of a setting behind its name
and notes the setting. -/
def settings {σ : Type} (one : σ → Option String → Scan σ) (noted : σ) : Scan σ := do
  loop (fun noted ↦ do
    if ← atEnd then return .done noted
    let noted ← one noted (← settingName)
    if ← atEnd then return .done noted
    demand ","
    return .yield noted) noted

/-- Reads the settings of all attributes that hold some. -/
def readSettings {σ : Type} (one : σ → Option String → Scan σ) :
    σ → List Attribute → Except DeriveError σ
  | noted, [] => .ok noted
  | noted, a :: rest =>
    if a.name = some "proto" then
      match a.form with
      | .bare => .error .noArguments
      | .value _ => .error .notArguments
      | .arguments content => do
        let (noted, _) ← whole (settings one noted) content
        readSettings one noted rest
    else readSettings one noted rest

/-- Notes a setting that may be given once. -/
def once {α : Type} (noted : Option α) (value : α) : Scan (Option α) :=
  match noted with
  | none => return some value
  | some _ => throw .duplicateSetting

end ProtoSchema.Derive
