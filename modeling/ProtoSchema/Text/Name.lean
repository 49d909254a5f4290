import ProtoSchema.Text.UpperSnake

/-!
# Schema names

Identifiers are ASCII letters, digits and low lines and do not start with a digit; packages are
identifiers joined by dots; and the qualified name of a type is its name behind its package.
-/

set_option autoImplicit false

namespace ProtoSchema.Text

/-- Whether a character may start an identifier. -/
def startsIdentifier (c : Char) : Bool := c.isAlpha || c == '_'

/-- Whether a character may stand inside an identifier. -/
def continuesIdentifier (c : Char) : Bool := c.isAlphanum || c == '_'

def isIdentifierList : List Char → Bool
  | [] => false
  | c :: rest => startsIdentifier c && rest.all continuesIdentifier

def isIdentifier (name : String) : Bool := isIdentifierList name.toList

/-- The parts of a text between occurrences of a character; there is always at least one. -/
def splitAt (separator : Char) : List Char → List (List Char)
  | [] => [[]]
  | c :: rest =>
    if c = separator then [] :: splitAt separator rest
    else
      match splitAt separator rest with
      | [] => [[c]]
      | part :: parts => (c :: part) :: parts

/-- Whether a name is a package: identifiers joined by dots. -/
def isPackage (name : String) : Bool := (splitAt '.' name.toList).all isIdentifierList

/-- The name of a type behind its package, if that is not empty. -/
def qualify (package : Option String) (name : String) : String :=
  match package with
  | some package => if package.isEmpty then name else package ++ "." ++ name
  | none => name

end ProtoSchema.Text
