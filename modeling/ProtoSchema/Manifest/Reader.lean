import ProtoSchema.Manifest.Document
import ProtoSchema.Text.Lines

/-!
# Reading manifests

A manifest is a sequence of lines: headers, which name the table that the following lines belong
to, and keys with values. Keys may be dotted paths, and values may go on over several lines.
-/

set_option autoImplicit false

namespace ProtoSchema.Manifest

/-- Reads from the front of a text, or fails. -/
abbrev Reader := StateT (List Char) Option

namespace Reader

/-- Drops what passes a test. -/
def skipWhile (test : Char → Bool) : Reader Unit := modify (·.dropWhile test)

def isBlank (c : Char) : Bool := c == ' ' || c == '\t'

def isLineEnd (c : Char) : Bool := c == '\n' || c == '\r'

/-- Drops blanks, line ends and comments; every round drops one comment. -/
def skipLines : (rounds : Nat) → List Char → List Char
  | 0, text => text
  | rounds + 1, text =>
    match text.dropWhile fun c ↦ isBlank c || isLineEnd c with
    | '#' :: rest => skipLines rounds (rest.dropWhile (!isLineEnd ·))
    | rest => rest

/-- Drops blanks, line ends and comments. -/
def skipGaps : Reader Unit := modify fun text ↦ skipLines text.length text

def accept (sign : String) : Reader Bool := do
  let text ← get
  if text.take sign.length == sign.toList then
    set (text.drop sign.length)
    return true
  else return false

def demand (sign : String) : Reader Unit := do
  if !(← accept sign) then failure

/-! ## Texts

Texts stand between one or three quotes of either kind. Those between double quotes have escapes. -/

/-- The number that digits in base sixteen denote. -/
def hexNumber (digits : List Char) : Nat :=
  digits.foldl
    (fun n c ↦
      let lower := c.toLower
      16 * n + (if c.isDigit then c.toNat - '0'.toNat else lower.toNat - 'a'.toNat + 10))
    0

/-- Whether the text ends here: what is left of it and what follows its closing quotes. Up to two
more quotes than three belong to the text. -/
def closing? (quotes text : List Char) : Option (List Char × List Char) :=
  if text.take quotes.length == quotes then
    if quotes.length = 1 then some ([], text.drop 1)
    else
      -- Of a longer run the last quotes close the text.
      let run := text.takeWhile fun c ↦ some c == quotes.head?
      let more := min (run.length - quotes.length) 2
      some (run.take more, text.drop (quotes.length + more))
  else none

/-- The text up to the closing quotes, with escapes resolved. One step takes one character or one
escape. -/
def escaped (quotes : List Char) : (steps : Nat) → List Char → Option (List Char × List Char)
  | 0, _ => none
  | _, [] => none
  | steps + 1, '\\' :: c :: rest =>
    let go (c : Char) (rest : List Char) : Option (List Char × List Char) :=
      (escaped quotes steps rest).map fun (text, left) ↦ (c :: text, left)
    match c with
    | 'b' => go '\x08' rest
    | 't' => go '\t' rest
    | 'n' => go '\n' rest
    | 'f' => go '\x0c' rest
    | 'r' => go '\r' rest
    | 'e' => go '\x1b' rest
    | 'x' => go (Char.ofNat (hexNumber (rest.take 2))) (rest.drop 2)
    | 'u' => go (Char.ofNat (hexNumber (rest.take 4))) (rest.drop 4)
    | 'U' => go (Char.ofNat (hexNumber (rest.take 8))) (rest.drop 8)
    | c =>
      if isBlank c || isLineEnd c then
        escaped quotes steps (rest.dropWhile fun c ↦ isBlank c || isLineEnd c)
      else go c rest
  | steps + 1, c :: rest =>
    match closing? quotes (c :: rest) with
    | some ended => some ended
    | none => (escaped quotes steps rest).map fun (text, left) ↦ (c :: text, left)

/-- The text up to the closing quotes, which holds no escapes. -/
def unescaped (quotes : List Char) : List Char → Option (List Char × List Char)
  | [] => none
  | c :: rest =>
    match closing? quotes (c :: rest) with
    | some ended => some ended
    | none => (unescaped quotes rest).map fun (text, left) ↦ (c :: text, left)

/-- A text over several lines does not include the line end behind its opening quotes. -/
def skipLineEnd : List Char → List Char
  | '\n' :: rest => rest
  | '\r' :: '\n' :: rest => rest
  | text => text

/-- Takes a text if a quote stands here. -/
def text? : Reader (Option String) := fun before ↦
  let taken (found : Option (List Char × List Char)) : Option (Option String × List Char) :=
    found.map fun (text, left) ↦ (some (String.ofList text), left)
  match before with
  | '"' :: '"' :: '"' :: rest =>
    taken (escaped ['"', '"', '"'] before.length (skipLineEnd rest))
  | '\'' :: '\'' :: '\'' :: rest => taken (unescaped ['\'', '\'', '\''] (skipLineEnd rest))
  | '"' :: rest => taken (escaped ['"'] before.length rest)
  | '\'' :: rest => taken (unescaped ['\''] rest)
  | _ => some (none, before)

/-! ## Keys and values

Of values only texts and inline tables are kept, but all of them have to be read to find where they
end. -/

/-- Whether a character may stand in a key without quotes. -/
def isKeyPart (c : Char) : Bool := c.isAlphanum || c == '_' || c == '-'

def keyPart : Reader String := do
  match ← text? with
  | some text => return text
  | none =>
    let (name, rest) := (← get).span isKeyPart
    if name.isEmpty then failure
    set rest
    return String.ofList name

def key : (rounds : Nat) → Reader (List String)
  | 0 => failure
  | rounds + 1 => do
    skipWhile isBlank
    let first ← keyPart
    skipWhile isBlank
    if ← accept "." then return first :: (← key rounds)
    else return [first]

mutual

def value : (fuel : Nat) → Reader Item
  | 0 => failure
  | fuel + 1 => do
    match ← text? with
    | some text => return .text text
    | none =>
      if ← accept "[" then
        elements fuel
        return .other
      else if ← accept "\x7b" then return .inlineTable (← inlineEntries fuel [])
      else
        let bare := (← get).takeWhile fun c ↦ !isLineEnd c && !",]\x7d#".toList.contains c
        if bare.isEmpty then failure
        modify (·.drop bare.length)
        return .other

/-- The elements of an array up to its end. -/
def elements : (fuel : Nat) → Reader Unit
  | 0 => failure
  | fuel + 1 => do
    skipGaps
    if !(← accept "]") then
      let _ ← value fuel
      skipGaps
      if ← accept "," then elements fuel else demand "]"

/-- The entries of an inline table up to its end. -/
def inlineEntries : (fuel : Nat) → (found : Table) → Reader Table
  | 0, _ => failure
  | fuel + 1, found => do
    skipGaps
    if ← accept "\x7d" then return found
    else
      let path ← key fuel
      demand "="
      skipWhile isBlank
      let found := found.put (← value fuel) path
      skipGaps
      if ← accept "," then inlineEntries fuel found
      else
        demand "\x7d"
        return found

end

/-! ## Lines -/

/-- The lines up to the end; `here` leads to the table that they belong to. -/
def lines : (fuel : Nat) → (here : List String) → (found : Table) → Reader Table
  | 0, _, _ => failure
  | fuel + 1, here, found => do
    skipGaps
    if (← get).isEmpty then return found
    else if ← accept "[[" then
      let path ← key fuel
      demand "]]"
      lines fuel path (found.put .tables path)
    else if ← accept "[" then
      let path ← key fuel
      demand "]"
      lines fuel path (found.opened path)
    else
      let path ← key fuel
      demand "="
      skipWhile isBlank
      lines fuel here (found.put (← value fuel) (here ++ path))

end Reader

/-- The root table of a manifest, if the text is one. -/
def parse? (text : String) : Option Table := do
  let characters := Text.withoutOrderMark text.toList
  let (found, _) ← (Reader.lines (characters.length + 1) [] []).run characters
  return found

end ProtoSchema.Manifest
