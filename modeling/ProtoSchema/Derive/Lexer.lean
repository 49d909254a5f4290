import ProtoSchema.Derive.Token
import ProtoSchema.Text.Lines
import ProtoSchema.Text.Quoted
import ProtoSchema.Text.Word

/-!
# From characters to tokens

A text is cut into lexemes, and lexemes are nested into tokens by their brackets. Comments vanish,
except those that document something: such a comment is an attribute that holds its text.
-/

set_option autoImplicit false

namespace ProtoSchema.Derive

open Text

/-- A token or a bracket on its own. -/
inductive Lexeme where
  | token (t : Token)
  | opening (b : Bracket)
  | closing (b : Bracket)
  deriving Repr

/-! ## Runs of characters

A run is split off where it ends, and there is none if it does not end before the text does. -/

def isMark (c : Char) : Bool := "~!@#$%^&*-=+|;:,<.>/?'".toList.contains c

/-- Whether a character separates tokens; the two direction marks do as well. -/
def isGap (c : Char) : Bool := isBlank c || c.toNat == 0x200E || c.toNat == 0x200F

/-- The line up to its end, and the rest from there on. -/
def splitLine : List Char → List Char × List Char
  | [] => ([], [])
  | '\n' :: rest => ([], '\n' :: rest)
  | '\r' :: '\n' :: rest => ([], '\r' :: '\n' :: rest)
  | c :: rest =>
    let (line, left) := splitLine rest
    (c :: line, left)

/-- The inside of a comment that is open `depth + 1` times, and what follows it. -/
def splitComment : (depth : Nat) → List Char → Option (List Char × List Char)
  | _, [] => none
  | 0, '*' :: '/' :: rest => some ([], rest)
  | depth + 1, '*' :: '/' :: rest =>
    (splitComment depth rest).map fun (inside, left) ↦ ('*' :: '/' :: inside, left)
  | depth, '/' :: '*' :: rest =>
    (splitComment (depth + 1) rest).map fun (inside, left) ↦ ('/' :: '*' :: inside, left)
  | depth, c :: rest => (splitComment depth rest).map fun (inside, left) ↦ (c :: inside, left)

/-- A quoted text up to and with its closing quote; a backslash shields the character after it. -/
def splitQuoted (quote : Char) : List Char → Option (List Char × List Char)
  | [] => none
  | '\\' :: c :: rest =>
    (splitQuoted quote rest).map fun (inside, left) ↦ ('\\' :: c :: inside, left)
  | c :: rest =>
    if c = quote then some ([c], rest)
    else (splitQuoted quote rest).map fun (inside, left) ↦ (c :: inside, left)

/-- A raw text up to and with the quote and the number signs that close it. -/
def splitRaw (signs : Nat) : List Char → Option (List Char × List Char)
  | [] => none
  | c :: rest =>
    if c = '"' && rest.take signs == List.replicate signs '#' then
      some (c :: rest.take signs, rest.drop signs)
    else (splitRaw signs rest).map fun (inside, left) ↦ (c :: inside, left)

/-- A word, if one starts here. -/
def splitWord : List Char → Option (List Char × List Char)
  | [] => none
  | c :: rest => if startsWord c then some ((c :: rest).span continuesWord) else none

/-- The word that a literal may end with. -/
def splitSuffix (text : List Char) : List Char × List Char := (splitWord text).getD ([], text)

/-! ## Numbers

A number may have low lines in it, a fraction, an exponent and a suffix. What belongs to it is
decided before anybody asks what it denotes. -/

/-- Whether a character may stand among decimal digits. -/
def isDecimalPart (c : Char) : Bool := c.isDigit || c == '_'

/-- Whether a character may stand among digits in base sixteen. -/
def isHexPart (c : Char) : Bool :=
  isDecimalPart c || ('a' ≤ c && c ≤ 'f') || ('A' ≤ c && c ≤ 'F')

/-- An exponent with at least one digit, behind its letter. -/
def splitExponent (text : List Char) : Option (List Char × List Char) :=
  match text with
  | [] => none
  | e :: rest =>
    if e = 'e' || e = 'E' then
      let (lows, rest) := rest.span (· == '_')
      let (sign, rest) :=
        match rest with
        | '+' :: rest => (['+'], rest)
        | '-' :: rest => (['-'], rest)
        | rest => ([], rest)
      let (digits, rest) := rest.span isDecimalPart
      if digits.any Char.isDigit then some (e :: lows ++ sign ++ digits, rest) else none
    else none

/-- The part of a float behind its whole digits; a point belongs to it only when neither another
point nor a word follows. -/
def splitFraction (text : List Char) : Option (List Char × List Char) :=
  match text with
  | '.' :: rest =>
    if (rest.head?.map fun c ↦ c = '.' || startsWord c).getD false then none
    else
      let (digits, rest) := rest.span isDecimalPart
      match splitExponent rest with
      | some (exponent, rest) => some ('.' :: digits ++ exponent, rest)
      | none => some ('.' :: digits, rest)
  | text => splitExponent text

/-- A number, which starts with a digit. -/
def splitNumber (text : List Char) : List Char × List Char :=
  let (number, rest) :=
    match text with
    | '0' :: 'x' :: rest =>
      let (digits, rest) := rest.span isHexPart
      ('0' :: 'x' :: digits, rest)
    | '0' :: 'o' :: rest =>
      let (digits, rest) := rest.span isDecimalPart
      ('0' :: 'o' :: digits, rest)
    | '0' :: 'b' :: rest =>
      let (digits, rest) := rest.span isDecimalPart
      ('0' :: 'b' :: digits, rest)
    | text =>
      let (digits, rest) := text.span isDecimalPart
      match splitFraction rest with
      | some (fraction, rest) => (digits ++ fraction, rest)
      | none => (digits, rest)
  let (suffix, rest) := splitSuffix rest
  (number ++ suffix, rest)

/-! ## Lexemes

What starts a lexeme is told by its first characters. Literals are tried before words, because some
of them start with letters. -/

/-- A literal with the suffix that follows it. -/
def suffixed (start : List Char) (rest : Option (List Char × List Char)) :
    Option (List Char × List Char) :=
  rest.map fun (body, left) ↦
    let (suffix, left) := splitSuffix left
    (start ++ body ++ suffix, left)

/-- A raw text behind the letters that announce it. -/
def rawText (letters text : List Char) : Option (List Char × List Char) :=
  let (signs, rest) := text.span (· == '#')
  match rest with
  | '"' :: rest => suffixed (letters ++ signs ++ ['"']) (splitRaw signs.length rest)
  | _ => none

/-- A single quoted character; what starts like one may also be the quote of a label. -/
def quotedCharacter : List Char → Option (List Char × List Char)
  | '\\' :: rest => splitQuoted '\'' ('\\' :: rest)
  | c :: '\'' :: rest => if c = '\'' then none else some ([c, '\''], rest)
  | _ => none

/-- The literal that starts here, if one does. -/
def splitLiteral : List Char → Option (List Char × List Char)
  | '"' :: rest => suffixed ['"'] (splitQuoted '"' rest)
  | 'b' :: '"' :: rest => suffixed ['b', '"'] (splitQuoted '"' rest)
  | 'c' :: '"' :: rest => suffixed ['c', '"'] (splitQuoted '"' rest)
  | 'b' :: '\'' :: rest => suffixed ['b', '\''] (quotedCharacter rest)
  | '\'' :: rest => suffixed ['\''] (quotedCharacter rest)
  | 'r' :: rest => rawText ['r'] rest
  | 'b' :: 'r' :: rest => rawText ['b', 'r'] rest
  | 'c' :: 'r' :: rest => rawText ['c', 'r'] rest
  | c :: rest => if c.isDigit then some (splitNumber (c :: rest)) else none
  | [] => none

def unrawableWords : List String := ["_", "super", "self", "Self", "crate"]

/-- The word that starts here, with its raw mark. -/
def splitAnyWord : List Char → Option (List Char × List Char)
  | 'r' :: '#' :: rest =>
    match splitWord rest with
    | some (word, left) =>
      if unrawableWords.contains (String.ofList word) then none
      else some ('r' :: '#' :: word, left)
    | none => splitWord ('r' :: '#' :: rest)
  | text => splitWord text

/-- The lexemes of an attribute that documents what follows, or what it is `inside` of. -/
def documentation (inside : Bool) (text : List Char) : List Lexeme :=
  [.token (.mark '#' false)] ++ (if inside then [.token (.mark '!' false)] else [])
    ++ [.opening .square, .token (.word "doc"), .token (.mark '=' false),
      .token (.literal (Text.literal (String.ofList text))), .closing .square]

/-- Whether what follows is a mark and not a comment. -/
def startsMark : List Char → Bool
  | '/' :: '/' :: _ => false
  | '/' :: '*' :: _ => false
  | c :: _ => isMark c
  | [] => false

/-- The lexemes that start the text, and the rest. A gap and a plain comment give none. -/
def nextLexemes : List Char → Option (List Lexeme × List Char)
  | [] => none
  | '/' :: '/' :: rest =>
    let (line, left) := splitLine rest
    match line with
    -- Four slashes are a rule between sections, not documentation.
    | '/' :: '/' :: _ => some ([], left)
    | '/' :: text => some (documentation false text, left)
    | '!' :: text => some (documentation true text, left)
    | _ => some ([], left)
  | '/' :: '*' :: '*' :: '/' :: rest => some ([], rest)
  | '/' :: '*' :: rest =>
    (splitComment 0 rest).map fun (inside, left) ↦
      match inside with
      | '*' :: '*' :: _ => ([], left)
      | '*' :: text => (documentation false text, left)
      | '!' :: text => (documentation true text, left)
      | _ => ([], left)
  | '(' :: rest => some ([.opening .round], rest)
  | ')' :: rest => some ([.closing .round], rest)
  | '[' :: rest => some ([.opening .square], rest)
  | ']' :: rest => some ([.closing .square], rest)
  | '\x7b' :: rest => some ([.opening .curly], rest)
  | '\x7d' :: rest => some ([.closing .curly], rest)
  | c :: rest =>
    if isGap c then some ([], rest)
    else
      match splitLiteral (c :: rest), splitAnyWord (c :: rest) with
      | some (spelling, left), _ => some ([.token (.literal (String.ofList spelling))], left)
      | none, some (word, left) => some ([.token (.word (String.ofList word))], left)
      | none, none =>
        if c = '\'' then
          -- A quote that starts no literal marks a label.
          if (splitAnyWord rest).isSome then some ([.token (.mark c true)], rest) else none
        else if isMark c then some ([.token (.mark c (startsMark rest))], rest)
        else none

/-- The lexemes of a text, if it can be cut. Every step takes at least one character, so as many
steps as there are characters suffice. -/
def lexemes : (steps : Nat) → List Char → Option (List Lexeme)
  | _, [] => some []
  | 0, _ :: _ => none
  | steps + 1, text => do
    let (found, rest) ← nextLexemes text
    return found ++ (← lexemes steps rest)

/-! ## Nesting -/

/-- Nests lexemes, read from the last to the first: `groups` holds those that are still to be
opened, innermost first, each with the tokens behind it. -/
def nest : (groups : List (Bracket × List Token)) → (behind : List Token) → List Lexeme →
    Option (List Token)
  | [], behind, [] => some behind
  | _ :: _, _, [] => none
  | groups, behind, .token t :: rest => nest groups (t :: behind) rest
  | groups, behind, .closing b :: rest => nest ((b, behind) :: groups) [] rest
  | [], _, .opening _ :: _ => none
  | (b', outside) :: groups, behind, .opening b :: rest =>
    if b = b' then nest groups (.group b behind :: outside) rest else none

/-- The tokens of a text, if it can be cut and its brackets match. -/
def tokens? (text : String) : Option (List Token) := do
  let characters := withoutOrderMark text.toList
  let found ← lexemes characters.length characters
  nest [] [] found.reverse

end ProtoSchema.Derive
