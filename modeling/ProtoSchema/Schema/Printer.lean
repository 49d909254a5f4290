import ProtoSchema.Schema.Descriptor
import ProtoSchema.Text.Lines

/-!
# The text of schema files

A schema file is written line by line: its header, then each type behind a blank line. Fields
stand in declaration order; the members of a oneof are gathered in one block where the first of
them stands. Documentation becomes block comments.
-/

set_option autoImplicit false

namespace ProtoSchema

open Text

/-! ## Default literals

Text and bytes are written alike, byte by byte, so that a literal is ASCII whatever it spells.
Floating-point numbers always show that they are. -/

def octal (b : UInt8) : String :=
  let digit (n : Nat) : String := (Nat.digitChar (n % 8)).toString
  digit (b.toNat / 64) ++ digit (b.toNat / 8) ++ digit b.toNat

/-- One byte of a literal: printable ASCII as itself, the rest by an escape. -/
def escapeLiteralByte (b : UInt8) : String :=
  if b = 0x22 then "\\\""
  else if b = 0x5C then "\\\\"
  else if b = 0x0A then "\\n"
  else if b = 0x0D then "\\r"
  else if b = 0x09 then "\\t"
  else if 0x20 ≤ b && b ≤ 0x7E then (Char.ofNat b.toNat).toString
  else "\\" ++ octal b

/-- Bytes as a literal between double quotes. -/
def bytesLiteral (bytes : Bytes) : String :=
  "\"" ++ String.join (bytes.map escapeLiteralByte) ++ "\""

def floatLiteral (x : Binary64) : String :=
  match x.read with
  | .nan => "nan"
  | .infinite negative => if negative then "-inf" else "inf"
  | .finite .. => x.exact

def DefaultValue.literal : DefaultValue → String
  | bool b => toString b
  | int n => toString n.toInt
  | uint n => toString n.toNat
  | float x => floatLiteral x
  | string s => bytesLiteral s.toUTF8.toList
  | bytes b => bytesLiteral b
  | enum name _ => name

/-! ## Lines

A reference is shortened where both types are in one package. Documentation stands in front of what
it is about, with the same indentation. -/

/-- Documentation as a block comment. -/
def docLines (indent : String) : Option String → List String
  | none => []
  | some docs =>
    let body := (lines docs.toList).map fun line ↦
      match trimEnd line with
      | [] => indent ++ " *"
      | text => indent ++ " * " ++ String.ofList text
    [indent ++ "/**"] ++ body ++ [indent ++ " */"]

/-- What follows `lead` in `text`, if `text` starts with it. -/
def dropLead? (lead text : String) : Option String :=
  if lead.toList.isPrefixOf text.toList then
    some (String.ofList (text.toList.drop lead.length))
  else none

/-- A reference from within a package: types of the same package go by their local name, others by
their full name behind a dot. -/
def referenceText (package : Option String) (name : String) : String :=
  match package with
  | none => name
  | some package => (dropLead? (package ++ ".") name).getD ("." ++ name)

namespace ValueType

def text (package : Option String) : ValueType → String
  | scalar s => s.keyword
  | message name => referenceText package name
  | enum name => referenceText package name

end ValueType

namespace Field

def typeText (package : Option String) (f : Field) : String :=
  match f.mapKey with
  | some key => "map<" ++ key.keyword ++ ", " ++ f.type.text package ++ ">"
  | none =>
    (if f.oneof.isNone then f.cardinality.label ++ " " else "") ++ f.type.text package

/-- The option behind a field's number. -/
def optionText (f : Field) : String :=
  match f.default with
  | some d => " [default = " ++ d.literal ++ "]"
  | none => if f.packed then " [packed = true]" else ""

def declaration (package : Option String) (f : Field) : String :=
  f.typeText package ++ " " ++ f.name ++ " = " ++ toString f.number ++ f.optionText ++ ";"

/-- A field with its documentation. -/
def lines (package : Option String) (indent : String) (f : Field) : List String :=
  docLines indent f.docs ++ [indent ++ f.declaration package]

end Field

/-- One step of indentation. -/
def indentation : String := "    "

/-- A oneof with its members. -/
def oneofLines (package : Option String) (group : String) (members : List Field) : List String :=
  [indentation ++ "oneof " ++ group ++ " \x7b"]
    ++ members.flatMap (·.lines package (indentation ++ indentation))
    ++ [indentation ++ "\x7d"]

namespace MessageType

/-- The lines of the fields from `rest` on, where `written` holds the oneofs already written. -/
def bodyLines (package : Option String) (all : List Field) :
    (written : List String) → (rest : List Field) → List String
  | _, [] => []
  | written, f :: rest =>
    match f.oneof with
    | none => f.lines package indentation ++ bodyLines package all written rest
    | some group =>
      -- Its members stand in the block of the first one.
      if written.contains group then bodyLines package all written rest
      else
        oneofLines package group (all.filter fun m ↦ m.oneof == some group)
          ++ bodyLines package all (group :: written) rest

/-- The lines of a message. -/
def lines (package : Option String) (m : MessageType) : List String :=
  docLines "" m.docs ++ ["message " ++ m.name ++ " \x7b"]
    ++ bodyLines package m.fields [] m.fields ++ ["\x7d"]

end MessageType

def EnumType.lines (e : EnumType) : List String :=
  docLines "" e.docs ++ ["enum " ++ e.name ++ " \x7b"]
    ++ e.values.flatMap (fun v ↦
      docLines indentation v.docs
        ++ [indentation ++ v.name ++ " = " ++ toString v.number.toInt ++ ";"])
    ++ ["\x7d"]

def Descriptor.lines (package : Option String) : Descriptor → List String
  | message m => m.lines package
  | enum e => e.lines

namespace SchemaFile

/-- The lines in front of the types. -/
def headerLines (f : SchemaFile) : List String :=
  (match f.generator with
    | some generator =>
      ["// File `" ++ f.name ++ "` generated by " ++ generator ++ ".", ""]
    | none => [])
    ++ ["syntax = \"proto2\";"]
    ++ (match f.package with
      | some package => ["", "package " ++ package ++ ";"]
      | none => [])
    ++ (if f.imports.isEmpty then []
      else "" :: f.imports.map fun i ↦ "import \"" ++ i ++ "\";")

/-- The lines of a file. -/
def lines (f : SchemaFile) : List String :=
  f.headerLines ++ f.types.flatMap fun d ↦ "" :: d.lines f.package

def render (f : SchemaFile) : String := String.join (f.lines.map (· ++ "\n"))

end SchemaFile

end ProtoSchema
