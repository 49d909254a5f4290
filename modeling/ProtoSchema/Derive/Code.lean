import ProtoSchema.Derive.Token
import ProtoSchema.Text.Quoted

/-!
# Writing code

Pieces from which derived code is put together. Code without literals is written as text and cut
into its tokens; literals and tokens of the declaration are put in between.
-/

set_option autoImplicit false

namespace ProtoSchema.Derive

namespace Code

/-- Cuts a text into words and single characters; `word` holds the letters of the word that is
being read, last one first. -/
def cut : (word : List Char) → List Char → Code
  | word, [] => close word
  | word, c :: rest =>
    if c.isAlphanum || c == '_' then cut (c :: word) rest
    else if c = ' ' then close word ++ cut [] rest
    else close word ++ c.toString :: cut [] rest
where
  /-- The word that ends here, if one does. -/
  close (word : List Char) : Code := if word.isEmpty then [] else [String.ofList word.reverse]

/-- The code that a text without literals stands for. -/
def of (text : String) : Code := cut [] text.toList

def round (code : Code) : Code := Bracket.round.around code

def curly (code : Code) : Code := Bracket.curly.around code

def angle (code : Code) : Code := "<" :: code ++ [">"]

def text (s : String) : Code := [Text.literal s]

/-- A whole number with the name of its type. -/
def number (n : Int) (type : String) : Code :=
  let digits := toString n.natAbs ++ type
  if n < 0 then ["-", digits] else [digits]

def method (name : String) (argument : Code) : Code := [".", name] ++ round argument

/-- A call of a method when there is an argument. -/
def method? (name : String) (argument : Option Code) : Code :=
  match argument with
  | some code => method name code
  | none => []

/-- The implementation of a trait for a type. -/
def implementation (trait : Code) (type : String) (items : Code) : Code :=
  ["impl"] ++ trait ++ ["for", type] ++ curly items

/-- A function: what stands before its body, and the body. -/
def function (head : Code) (body : Code) : Code := ["fn"] ++ head ++ curly body

/-- The mark of a function that is meant to be expanded where it is called. -/
def inlined : Code := of "#[inline]"

end Code

/-! ## The library

The path to the library is found once, and every item that the code needs stands behind it. -/

/-- The library that derived code relies on, by the path that leads to it. -/
structure Library where
  path : Code

namespace Library

def item (l : Library) (name : String) : Code := l.path ++ Code.of ("::" ++ name)

def info (l : Library) (name : String) : Code := l.item ("info::" ++ name)

def value (l : Library) (name : String) : Code := l.item ("value::" ++ name)

def support (l : Library) (name : String) : Code := l.item ("__macro_exports::" ++ name)

/-- A reference to the description of a type, by the function that makes the reference. -/
def typeRef (l : Library) (maker : String) (type : Code) : Code :=
  l.info ("TypeRef::" ++ maker) ++ Code.of "::" ++ Code.angle type ++ Code.of "()"

/-- The function that lends the description of a type, which is made on its first use. -/
def typeInfo (l : Library) (description : Code) : Code :=
  Code.function (Code.of "type_info() -> &'static" ++ l.info "TypeInfo")
    (Code.of "static CELL:" ++ l.info "TypeInfoCell" ++ ["="] ++ l.info "TypeInfoCell::new"
      ++ Code.of "(); CELL.get_or_init" ++ Code.round (["|", "|"] ++ Code.curly description))

/-- The implementation that makes a type the native type of a field. -/
def protoField (l : Library) (type : String) (fieldType toValue fromValue missing : Code) : Code :=
  Code.implementation (l.value "ProtoField") type
    (Code.inlined
      ++ Code.function (Code.of "field_type() ->" ++ l.info "FieldType") fieldType
      ++ Code.inlined
      ++ Code.function
        (Code.of "to_value(&self) ->" ++ l.value "ValueRef" ++ Code.of "<'_>") toValue
      ++ Code.inlined
      ++ Code.function
        (Code.of "from_value(value:" ++ l.value "Value" ++ Code.of ") ->" ++ l.support "Result"
          ++ Code.angle (Code.of "Self," ++ l.item "error::ValueError"))
        fromValue
      ++ missing)

end Library

/-- Implementations as one item that introduces no names. -/
def Code.enclosed (items : Code) : Code := Code.of "const _: () =" ++ Code.curly items ++ [";"]

end ProtoSchema.Derive
