import ProtoSchema.Derive.Attribute
import ProtoSchema.Derive.Grammar.Reading

/-!
# Declarations

The declaration of a native type: a struct with fields, an enum with variants, or a union. Whatever
cannot be part of a message or of an enum is noted but not kept.
-/

set_option autoImplicit false

namespace ProtoSchema.Derive

open Scan Grammar

/-- The type of a field, the way it is written out, and its last word when it is a path. -/
structure DeclaredType where
  written : List Token
  lastWord : Option Segment
  deriving Repr

/-- The type inside a wrapper, as the item type of a list is inside of it: the only argument of the
last word of a path, when that word is the wrapper's name. -/
def DeclaredType.wrapped? (t : DeclaredType) (wrapper : String) : Option (List Token) :=
  match t.lastWord with
  | some ⟨name, .angle [.type inner]⟩ => if name = wrapper then some inner else none
  | _ => none

structure DeclaredField where
  attributes : List Attribute
  name : String
  type : DeclaredType
  deriving Repr

structure DeclaredVariant where
  attributes : List Attribute
  name : String
  /-- Whether fields belong to the variant. -/
  hasData : Bool
  discriminant : Option Expression
  deriving Repr

inductive Shape where
  /-- A struct, with its fields if they have names. -/
  | struct (fields : Option (List DeclaredField))
  | enum (variants : List DeclaredVariant)
  | union
  deriving Repr

structure Declaration where
  attributes : List Attribute
  name : String
  isGeneric : Bool
  shape : Shape
  deriving Repr

/-! ## Parts

Attributes stand in front of each part, and it is behind them that the kind of declaration is told
by its first words. -/

def DeclaredType.read (r : Readers) (unnamed : Bool) : Scan DeclaredType := do
  let (form, written) ← unwritten (fieldType r unnamed)
  match form with
  | .path p => return ⟨written, p.segments.getLast?⟩
  | _ => return ⟨written, none⟩

def DeclaredField.read (r : Readers) : Scan DeclaredField := do
  let attributes ← declaredAttributes
  let _ ← visibility
  let unnamed ← sees "_"
  let name ← if unnamed then anyWord else Scan.name
  demand ":"
  return ⟨attributes, name, ← DeclaredType.read r unnamed⟩

def DeclaredVariant.read (r : Readers) : Scan DeclaredVariant := do
  let attributes ← declaredAttributes
  let _ ← visibility
  let name ← Scan.name
  let hasData ← acceptAny [.group .round, .group .curly]
  let discriminant ← if ← accept "=" then pure (some (← r.expression true)) else pure none
  return ⟨attributes, name, hasData, discriminant⟩

def structShape (r : Readers) : Scan Shape := do
  let _ ← conditions r
  if ← sees (.group .curly) then
    return .struct (some (← inside .curly (separated "," atEnd (DeclaredField.read r))))
  else
    let _ ← accept (.group .round)
    let _ ← conditions r
    demand ";"
    return .struct none

def enumShape (r : Readers) : Scan Shape := do
  let _ ← conditions r
  return .enum (← inside .curly (separated "," atEnd (DeclaredVariant.read r)))

def unionShape (r : Readers) : Scan Shape := do
  let _ ← conditions r
  demand (.group .curly)
  return .union

def Declaration.read (r : Readers) : Scan Declaration := do
  let attributes ← declaredAttributes
  let _ ← visibility
  let shape ←
    if ← accept "struct" then pure structShape
    else if ← accept "enum" then pure enumShape
    else
      demand "union"
      pure unionShape
  let name ← Scan.name
  let isGeneric := (← parameters r) != 0
  return ⟨attributes, name, isGeneric, ← shape r⟩

/-- The declaration that a text holds. -/
def Declaration.parse (text : String) : Except DeriveError Declaration :=
  match tokens? text with
  | none => .error .unreadable
  | some tokens =>
    match whole (Declaration.read (readersFor tokens)) tokens with
    | .ok (d, _) => .ok d
    | .error _ => .error .unreadable

end ProtoSchema.Derive
