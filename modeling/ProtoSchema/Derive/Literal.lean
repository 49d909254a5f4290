import ProtoSchema.Derive.Token
import ProtoSchema.Floating.Basic
import ProtoSchema.Text.Word

/-!
# Literals

What a literal of a declaration denotes. Whole numbers are of any size; a number with a point or
with an exponent is a float, and a number without them is whole whatever suffix it carries. Suffixes
of literals do not count.
-/

set_option autoImplicit false

namespace ProtoSchema.Derive

open Text

/-- A literal by what it denotes. -/
inductive Literal where
  | bool (value : Bool)
  | integer (magnitude : Nat)
  /-- The number `digits * 10 ^ exponent`. -/
  | float (value : Floating.Decimal)
  | text (value : String)
  /-- Bytes or a single character. -/
  | other
  deriving DecidableEq, Repr

/-! ## Numbers

Whole numbers are read exactly. Floats are rounded to the nearest 64-bit value, whatever their
suffix. -/

/-- The value of a digit in a base, if it is one. -/
def digitValue? (base : Nat) (c : Char) : Option Nat :=
  let value :=
    if c.isDigit then c.toNat - '0'.toNat
    else if 'a' ≤ c && c ≤ 'f' then c.toNat - 'a'.toNat + 10
    else if 'A' ≤ c && c ≤ 'F' then c.toNat - 'A'.toNat + 10
    else 16
  if value < base then some value else none

/-- Reads digits, skipping low lines, and gives what follows them. -/
def readDigits (base : Nat) : (sofar : Nat) → List Char → Nat × List Char
  | n, [] => (n, [])
  | n, c :: rest =>
    if c = '_' then readDigits base n rest
    else
      match digitValue? base c with
      | some d => readDigits base (base * n + d) rest
      | none => (n, c :: rest)

/-- Whether a text is empty or a word. -/
def isSuffix : List Char → Bool
  | [] => true
  | c :: rest => startsWord c && rest.all continuesWord

/-- What follows the letter of an exponent makes it one: a sign, or a digit up to the end or up to
a suffix. -/
def hasExponent (text : List Char) : Bool :=
  let (part, rest) := text.span fun c ↦ c.isDigit || c == '_'
  match rest with
  | '+' :: _ => true
  | '-' :: _ => true
  | rest => part.any Char.isDigit && isSuffix rest

/-- A whole number and its suffix. -/
def integerParts? (text : List Char) : Option (Nat × List Char) :=
  match text with
  | '0' :: 'x' :: rest => finish (readDigits 16 0 rest)
  | '0' :: 'o' :: rest => finish (readDigits 8 0 rest)
  | '0' :: 'b' :: rest => finish (readDigits 2 0 rest)
  | c :: rest =>
    if c.isDigit then
      match readDigits 10 0 (c :: rest) with
      | (_, '.' :: _) => none
      -- An exponent makes a float; without one the letter starts a suffix.
      | (n, 'e' :: rest) => if hasExponent rest then none else finish (n, 'e' :: rest)
      | (n, 'E' :: rest) => if hasExponent rest then none else finish (n, 'E' :: rest)
      | read => finish read
    else none
  | [] => none
where
  finish (read : Nat × List Char) : Option (Nat × List Char) :=
    if isSuffix read.2 then some read else none

def integer? (text : List Char) : Option Nat := (integerParts? text).map (·.1)

/-- The exponent behind its letter, if one stands here. -/
def exponentOf (text : List Char) : Int :=
  match text with
  | e :: rest =>
    if e = 'e' || e = 'E' then
      match rest.filter (· != '_') with
      | '-' :: digits => -((readDigits 10 0 digits).1 : Int)
      | '+' :: digits => (readDigits 10 0 digits).1
      | digits => (readDigits 10 0 digits).1
    else 0
  | [] => 0

def float? (text : List Char) : Option Floating.Decimal :=
  match text with
  | c :: _ =>
    if c.isDigit then
      let (whole, rest) := readDigits 10 0 text
      match rest with
      | '.' :: rest =>
        let fraction := rest.takeWhile fun c ↦ c.isDigit || c == '_'
        let places := (fraction.filter Char.isDigit).length
        some ⟨(readDigits 10 whole fraction).1, exponentOf (rest.drop fraction.length) - places⟩
      | rest => some ⟨whole, exponentOf rest⟩
    else none
  | [] => none

/-- The value nearest to a decimal. Decimals far beyond the largest and the smallest number are
told by their magnitude alone. -/
def nearest (d : Floating.Decimal) : Binary64 :=
  let magnitude := (Floating.decimalLength d.digits : Int) + d.exponent
  if d.digits = 0 || magnitude < -400 then Binary64.ofInt 0
  else if 400 < magnitude then Binary64.ofDecimal ⟨1, 400⟩
  else Binary64.ofDecimal d

/-! ## Texts

Escapes denote characters in texts and bytes in byte strings. A raw literal has none. -/

/-- The text between escapes and quotes, up to the closing quote. A backslash at the end of a line
joins it to the next word. The fuel bounds the length of the text. -/
def unescape : (fuel : Nat) → List Char → List Char
  | 0, _ => []
  | _, [] => []
  | fuel + 1, '\\' :: c :: rest =>
    match c with
    | 'n' => '\n' :: unescape fuel rest
    | 'r' => '\r' :: unescape fuel rest
    | 't' => '\t' :: unescape fuel rest
    | '0' => '\x00' :: unescape fuel rest
    | 'x' => Char.ofNat (readDigits 16 0 (rest.take 2)).1 :: unescape fuel (rest.drop 2)
    | 'u' =>
      let digits := (rest.drop 1).takeWhile (· != '\x7d')
      Char.ofNat (readDigits 16 0 digits).1 :: unescape fuel (rest.drop (digits.length + 2))
    | '\n' => unescape fuel (rest.dropWhile isLineGap)
    | '\r' => unescape fuel (rest.dropWhile isLineGap)
    | c => c :: unescape fuel rest
  | fuel + 1, '\r' :: '\n' :: rest => '\n' :: unescape fuel rest
  | fuel + 1, c :: rest => if c = '"' then [] else c :: unescape fuel rest
where
  isLineGap (c : Char) : Bool := c == ' ' || c == '\t' || c == '\n' || c == '\r'

/-- The text between the quotes of a raw literal, which hold no escapes. -/
def rawContent (text : List Char) : List Char :=
  let inside := (text.dropWhile (· != '"')).drop 1
  ((inside.reverse.dropWhile (· != '"')).drop 1).reverse

namespace Literal

def ofSpelling (spelling : String) : Literal :=
  match spelling.toList with
  | '"' :: rest => .text (String.ofList (unescape rest.length rest))
  | 'r' :: rest => .text (String.ofList (rawContent rest))
  | characters =>
    match integer? characters, float? characters with
    | some n, _ => .integer n
    | none, some d => .float d
    | none, none => .other

/-- The literal that a token is; the two truth values are words. -/
def ofToken? : Token → Option Literal
  | .literal spelling => some (ofSpelling spelling)
  | .word "true" => some (.bool true)
  | .word "false" => some (.bool false)
  | _ => none

end Literal

end ProtoSchema.Derive
