import ProtoSchema.Derive.Error
import ProtoSchema.Derive.Literal

/-!
# Reading tokens

A scan takes tokens from the front of a sequence. It fails with an error, or gives what it read and
leaves the tokens that follow. What it reads it also writes out again: nearly always the tokens
stay as they are, but some are put in order, spelled in another way or dropped. Looking ahead takes
nothing.
-/

set_option autoImplicit false

namespace ProtoSchema.Derive

/-- Where the reading of a sequence of tokens stands. -/
structure Cursor where
  /-- The tokens that are still to be read. -/
  ahead : List Token
  /-- What was written out, last token first. -/
  written : List Token := []
  /-- The brackets of the first group that was left before its end. -/
  stray : Option Bracket := none
  deriving Inhabited

/-- Reads from the front of a sequence of tokens. -/
abbrev Scan := StateT Cursor (Except DeriveError)

/-! ## What can stand at the front -/

/-- What can stand at the front of tokens. -/
inductive Front where
  /-- A certain word, or certain marks that are joined to one another. -/
  | spelled (spelling : String)
  /-- A word that is not reserved. -/
  | name
  | anyWord
  | lifetime
  | literal
  /-- A literal that is a text. -/
  | text
  | group (bracket : Bracket)
  deriving DecidableEq, Repr

/-- The words that name nothing. -/
def reservedWords : List String :=
  ["_", "abstract", "as", "async", "await", "become", "box", "break", "const", "continue", "crate",
    "do", "dyn", "else", "enum", "extern", "false", "final", "fn", "for", "if", "impl", "in", "let",
    "loop", "macro", "match", "mod", "move", "mut", "override", "priv", "pub", "ref", "return",
    "Self", "self", "static", "struct", "super", "trait", "true", "try", "type", "typeof", "unsafe",
    "unsized", "use", "virtual", "where", "while", "yield"]

/-- Whether tokens start with the given marks, joined to one another. -/
def startsWithMarks : List Char → List Token → Bool
  | [], _ => true
  | [c], .mark c' _ :: _ => c == c'
  | c :: marks, .mark c' joined :: rest => c == c' && joined && startsWithMarks marks rest
  | _, _ => false

/-- The literal at the front of tokens, whether a minus stands before it, and its spelling. Only
numbers may have a minus. -/
def literalAt? : List Token → Option (Bool × Literal × String)
  | .mark '-' _ :: .literal spelling :: _ =>
    match Literal.ofSpelling spelling with
    | .integer n => some (true, .integer n, spelling)
    | .float d => some (true, .float d, spelling)
    | _ => none
  | t :: _ => (Literal.ofToken? t).map fun l ↦ (false, l, String.join t.code)
  | [] => none

namespace Front

instance : Coe String Front := ⟨spelled⟩

/-- Whether a spelling is that of a word. -/
def isWordSpelling (spelling : String) : Bool :=
  match spelling.toList with
  | c :: _ => c.isAlpha || c == '_'
  | [] => false

/-- Whether it stands at the front of tokens. -/
def startsOff : Front → List Token → Bool
  | spelled spelling, .word word :: _ => word == spelling
  | spelled spelling, tokens => startsWithMarks spelling.toList tokens
  | name, .word word :: _ => !reservedWords.contains word
  | anyWord, .word _ :: _ => true
  | lifetime, .mark '\'' _ :: .word _ :: _ => true
  | literal, tokens => (literalAt? tokens).isSome
  | text, .literal spelling :: _ => (Literal.ofSpelling spelling matches .text _)
  | group b, .group b' _ :: _ => b == b'
  | _, _ => false

/-- How many tokens of the sequence it takes when it stands at its front. -/
def width : Front → List Token → Nat
  | lifetime, _ => 2
  | spelled spelling, .mark _ _ :: _ => spelling.length
  | literal, .mark _ _ :: _ => 2
  | _, _ => 1

/-- How a user is told about it. -/
def shown : Front → String
  | spelled spelling => s!"`{spelling}`"
  | name => "identifier"
  | anyWord => "ident"
  | lifetime => "lifetime"
  | literal => "literal"
  | text => "string literal"
  | group .round => "parentheses"
  | group .square => "square brackets"
  | group .curly => "curly braces"

end Front

/-- The tokens behind the first; a lifetime counts as one token. -/
def behindFirst : List Token → List Token
  | .mark '\'' _ :: .word _ :: rest => rest
  | _ :: rest => rest
  | [] => []

namespace Scan

/-! ## Looking ahead

A scan may look at the tokens in front of it without taking any, and mostly looks at one. -/

def atEnd : Scan Bool := do return (← get).ahead.isEmpty

def sees (f : Front) : Scan Bool := do return f.startsOff (← get).ahead

def seesAny (fs : List Front) : Scan Bool := do
  let tokens := (← get).ahead
  return fs.any (·.startsOff tokens)

def seesSecond (f : Front) : Scan Bool := do return f.startsOff (behindFirst (← get).ahead)

def seesThird (f : Front) : Scan Bool := do
  return f.startsOff (behindFirst (behindFirst (← get).ahead))

/-- Reads and then goes back to where the reading started. -/
def peeking {α : Type} (p : Scan α) : Scan α := fun c ↦ do
  let (a, _) ← p c
  return (a, c)

/-- Reads if it can, and takes nothing otherwise. -/
def attempt {α : Type} (p : Scan α) : Scan (Option α) := fun c ↦
  match p c with
  | .ok (a, c) => .ok (some a, c)
  | .error _ => .ok (none, c)

/-! ## Errors -/

def refuse {α : Type} (reason : GrammarError) : Scan α := throw (.grammar reason)

def expected {α : Type} (what : String) : Scan α := do
  refuse (.expected what (← atEnd))

/-- Fails because none of the things stands here that were looked for. -/
def expectedOneOf {α : Type} (fs : List Front) : Scan α := do
  match fs.map Front.shown with
  | [] => refuse (.unexpected (← atEnd))
  | [a] => expected a
  | [a, b] => expected (a ++ " or " ++ b)
  | shown => expected ("one of: " ++ ", ".intercalate shown)

/-! ## Taking tokens

What is taken is also written out, unless it is dropped. Marks are taken as a whole, so the
characters of an operator must be joined. -/

def write (tokens : List Token) : Scan Unit :=
  modify fun c ↦ { c with written := tokens.reverse ++ c.written }

def skip (count : Nat) : Scan Unit :=
  modify fun c ↦
    { c with ahead := c.ahead.drop count, written := (c.ahead.take count).reverse ++ c.written }

/-- Takes tokens and does not write them out. -/
def drop (count : Nat) : Scan Unit := modify fun c ↦ { c with ahead := c.ahead.drop count }

def accept (f : Front) : Scan Bool := do
  if ← sees f then
    skip (f.width (← get).ahead)
    return true
  else return false

def acceptAny (fs : List Front) : Scan Bool := do
  let tokens := (← get).ahead
  match fs.find? (·.startsOff tokens) with
  | some f =>
    skip (f.width tokens)
    return true
  | none => return false

/-- Takes something if it stands here, and does not write it out. -/
def acceptUnwritten (f : Front) : Scan Bool := do
  if ← sees f then
    drop (f.width (← get).ahead)
    return true
  else return false

/-- Fails because something does not stand here. Of a name, a reserved word in its place is told; of
marks, it does not matter whether the tokens end. -/
def missing {α : Type} (f : Front) : Scan α := do
  match f, (← get).ahead with
  | .name, .word word :: _ => refuse (.reservedName word)
  | .spelled spelling, _ =>
    if Front.isWordSpelling spelling then expected f.shown
    else refuse (.expectedMark spelling)
  | f, _ => expected f.shown

/-- Takes something, which must stand here. -/
def demand (f : Front) : Scan Unit := do
  if !(← accept f) then missing f

def anyWord : Scan String := do
  match (← get).ahead with
  | .word name :: _ =>
    skip 1
    return name
  | _ => expected "ident"

/-- Takes a word that is not reserved. -/
def name : Scan String := do
  if ← sees .name then anyWord else missing .name

/-- Reads what a group holds. Tokens that are left in the group are noted. -/
def inside {α : Type} (bracket : Bracket) (p : Scan α) : Scan α := do
  let c ← get
  match c.ahead with
  | .group b content :: rest =>
    if b = bracket then
      set { c with ahead := content, written := [] }
      let a ← p
      let inner ← get
      set
        { ahead := rest
          written := .group b (inner.written.reverse ++ inner.ahead) :: c.written
          stray := inner.stray <|> if inner.ahead.isEmpty then none else some b : Cursor }
      return a
    else missing (.group bracket)
  | _ => missing (.group bracket)

/-- Takes a group whatever it holds. -/
def anyInside (bracket : Bracket) : Scan Unit := demand (.group bracket)

/-! ## What is written out -/

/-- Reads, and gives what would be written out instead of writing it. -/
def unwritten {α : Type} (p : Scan α) : Scan (α × List Token) := do
  let written := (← get).written
  modify ({ · with written := [] })
  let a ← p
  let c ← get
  set { c with written := written }
  return (a, c.written.reverse)

/-- Reads something that is sometimes written out as it stands, with none of the changes that
writing makes; what was read tells when. -/
def keptIf {α : Type} (asItStands : α → Bool) (p : Scan α) : Scan α := do
  let start ← get
  let a ← p
  if asItStands a then
    let c ← get
    let taken := start.ahead.take (start.ahead.length - c.ahead.length)
    set { c with written := taken.reverse ++ start.written }
  return a

/-- Reads something that is written out as it stands. -/
def kept {α : Type} (p : Scan α) : Scan α := keptIf (fun _ ↦ true) p

/-! ## Repetition

A repetition ends where a step says so or fails. It is bounded by the number of tokens, since every
step but the last takes one. -/

/-- Repeats a step until it is done; at most as many times as given. -/
def repeatedly {σ : Type} (step : σ → Scan (ForInStep σ)) : (rounds : Nat) → σ → Scan σ
  | 0, s => return s
  | rounds + 1, s => do
    match ← step s with
    | .done s => return s
    | .yield s => repeatedly step rounds s

/-- Repeats a step until it is done. Every step but the last takes a token, so one step more than
there are tokens suffices. -/
def loop {σ : Type} (step : σ → Scan (ForInStep σ)) (s : σ) : Scan σ := do
  repeatedly step ((← get).ahead.length + 1) s

/-- Repeats a step as long as it says so. -/
def whileDone (step : Scan Bool) : Scan Unit :=
  loop (fun () ↦ do return if ← step then .yield () else .done ()) ()

/-- Reads what stands between separators up to a stop, which may also stand behind a separator. -/
def separated {α : Type} (separator : Front) (stop : Scan Bool) (item : Scan α) :
    Scan (List α) := do
  let found ← loop (fun found ↦ do
    if ← stop then return .done found
    let a ← item
    if ← stop then return .done (a :: found)
    demand separator
    return .yield (a :: found)) []
  return found.reverse

/-- Reads what stands between commas up to the end. -/
def commaSeparated {α : Type} (item : Scan α) : Scan Unit := do
  let _ ← separated "," atEnd item

/-- Reads the tokens of a whole sequence; gives what was read and what it is written out as. -/
def whole {α : Type} (p : Scan α) (tokens : List Token) : Except DeriveError (α × List Token) := do
  let (a, c) ← p { ahead := tokens }
  match c.stray, c.ahead with
  | some bracket, _ => .error (.grammar (.strayToken bracket))
  | none, _ :: _ => .error (.grammar (.unexpected false))
  | none, [] => return (a, c.written.reverse)

/-! ## Literals -/

/-- Takes a text literal; gives how it is spelled, and its text. -/
def textLiteral : Scan (String × String) := do
  match literalAt? (← get).ahead with
  | some (_, .text value, spelling) =>
    skip 1
    return (spelling, value)
  | _ => expected "string literal"

/-- Takes a literal that is a truth value. -/
def boolLiteral : Scan Bool := do
  match literalAt? (← get).ahead with
  | some (_, .bool value, _) =>
    skip 1
    return value
  | _ => expected "boolean literal"

/-- Takes a whole number; gives whether a minus stands before it. -/
def integerLiteral : Scan (Bool × Nat) := do
  match literalAt? (← get).ahead with
  | some (minus, .integer magnitude, _) =>
    skip (if minus then 2 else 1)
    return (minus, magnitude)
  | _ => expected "integer literal"

end Scan

end ProtoSchema.Derive
