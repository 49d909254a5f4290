import ProtoSchema.Derive.Grammar.Path

/-!
# Attributes in code

Attributes stand in front of what they describe, or with an exclamation mark at the start of what
they stand in.
-/

set_option autoImplicit false

namespace ProtoSchema.Derive.Grammar

open Scan

/-- What stands between the brackets of an attribute: a name, behind which there may be arguments
in brackets of any kind or a value. -/
def attributeContent (r : Readers) : Scan Unit := do
  if !(← accept "unsafe") then plainPath
  if !(← acceptAny [.group .round, .group .square, .group .curly]) then
    if (← sees "=") && !(← sees "==") && !(← sees "=>") then
      skip 1
      if (← sees "#") && (← seesSecond (.group .square)) then refuse .nestedAttribute
      let _ ← r.expression true

/-- The attributes in front of something; whether there are any. -/
def attributes (r : Readers) : Scan Bool := do
  loop (fun found ↦ do
    if ← accept "#" then
      inside .square (attributeContent r)
      return .yield true
    else return .done found) false

/-- The attributes at the start of something. -/
def innerAttributes (r : Readers) : Scan Unit := do
  whileDone do
    if (← sees "#") && (← seesSecond "!") then
      skip 2
      inside .square (attributeContent r)
      return true
    else return false

def block (r : Readers) : Scan Unit := do inside .curly r.statements

/-- Statements in braces, where attributes may stand in front of the first. -/
def body (r : Readers) : Scan Unit := do
  inside .curly do
    innerAttributes r
    r.statements

end ProtoSchema.Derive.Grammar
