import ProtoSchema.Text.Combining
import ProtoSchema.Text.Printable

/-!
# Quoted text

Text and bytes between double quotes, as error texts, dumps of values and generated literals show
them. Whatever cannot be shown as itself is written as an escape: characters by their code point,
bytes by two digits in base sixteen.
-/

set_option autoImplicit false

namespace ProtoSchema.Text

/-- The lower-case digits of a number in base sixteen. -/
def hexText (n : Nat) : String := String.ofList (Nat.toDigits 16 n)

/-- A character inside quotes; a single quote needs no escape there. -/
def escapeChar (c : Char) : String :=
  if c = '"' then "\\\""
  else if c = '\\' then "\\\\"
  else if c = '\n' then "\\n"
  else if c = '\r' then "\\r"
  else if c = '\t' then "\\t"
  else if c.toNat = 0 then "\\0"
  else if isPrintable c && !isCombining c then c.toString
  else "\\u\x7b" ++ hexText c.toNat ++ "\x7d"

def quote (text : String) : String :=
  "\"" ++ String.join (text.toList.map escapeChar) ++ "\""

def isOctalDigit (c : Char) : Bool := '0' ≤ c && c ≤ '7'

/-- A text as a source literal. It is quoted, but a zero in front of an octal digit is spelled with
two digits, so that it cannot be taken for the start of a longer number. -/
def literal (text : String) : String :=
  let rec go : List Char → List String
    | [] => []
    | c :: rest =>
      (if c.toNat = 0 && (rest.head?.map isOctalDigit).getD false then "\\x00" else escapeChar c)
        :: go rest
  "\"" ++ String.join (go text.toList) ++ "\""

def escapeByte (b : UInt8) : String :=
  if b = 0x22 then "\\\""
  else if b = 0x5C then "\\\\"
  else if b = 0x0A then "\\n"
  else if b = 0x0D then "\\r"
  else if b = 0x09 then "\\t"
  else if b = 0 then "\\0"
  else if 0x20 ≤ b && b < 0x7F then (Char.ofNat b.toNat).toString
  else "\\x" ++ hexText (b.toNat / 16) ++ hexText (b.toNat % 16)

/-- Bytes between quotes, marked as bytes. -/
def quoteBytes (bytes : List UInt8) : String :=
  "b\"" ++ String.join (bytes.map escapeByte) ++ "\""

end ProtoSchema.Text
