import ProtoSchema.Text.Combining
import ProtoSchema.Text.Case

/-!
# Upper snake case

The spelling of constants: words in upper case with a low line between them. Low lines, hyphens
and spaces already separate words. Between letters and digits a new word starts where a lower-case
letter is followed by an upper-case one, where digits begin or end, and before the last capital of
a run of capitals that is followed by a lower-case letter.
-/

set_option autoImplicit false

namespace ProtoSchema.Text

/-- Whether a unit of text has case at all. -/
def hasCase (unit : List Char) : Bool := upperAll unit != lowerAll unit

def isUpperUnit (unit : List Char) : Bool := hasCase unit && unit == upperAll unit

def isLowerUnit (unit : List Char) : Bool := hasCase unit && unit == lowerAll unit

/-- Whether a unit of text is an ASCII digit. -/
def isDigitUnit (unit : List Char) : Bool := unit.all Char.isDigit

def isSeparator (unit : List Char) : Bool := unit == ['_'] || unit == ['-'] || unit == [' ']

/-- Whether a word ends between two adjacent units, given what follows them. -/
def endsWord (a b : List Char) (next : Option (List Char)) : Bool :=
  (isLowerUnit a && isUpperUnit b)
    || ((isUpperUnit a || isLowerUnit a) && isDigitUnit b)
    || (isDigitUnit a && (isUpperUnit b || isLowerUnit b))
    || (isUpperUnit a && isUpperUnit b && (next.map isLowerUnit).getD false)

/-- The units of a text in upper case, with a low line where a word ends. -/
def upperSnakeUnits : List (List Char) → List Char
  | [] => []
  | a :: rest =>
    let written := if isSeparator a then ['_'] else upperAll a
    let gap :=
      match rest with
      | b :: more => if endsWord a b more.head? then ['_'] else []
      | [] => []
    written ++ gap ++ upperSnakeUnits rest

def upperSnake (name : String) : String :=
  String.ofList (upperSnakeUnits (units name.toList))

end ProtoSchema.Text
