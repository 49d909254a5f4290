/-!
# Manifest documents

A manifest is a tree of tables whose leaves are values. Of the values only texts count, and tables
written inline, which hold entries but are values themselves. Entries keep the order in which their
keys were first named, except for tables whose header comes late.
-/

set_option autoImplicit false

namespace ProtoSchema.Manifest

/-- What stands under a key. -/
inductive Item where
  | text (value : String)
  /-- A number, a truth value, a date or an array. -/
  | other
  | inlineTable (entries : List (String × Item))
  | table (entries : List (String × Item))
  /-- Tables under one header each; what they hold is not kept. -/
  | tables
  deriving Inhabited

/-- Entries by key, in order. -/
abbrev Table := List (String × Item)

/-- The first of some entries whose key is the given one, changed; or a new one at the end. -/
def Table.change (key : String) (f : Option Item → Item) : Table → Table
  | [] => [(key, f none)]
  | (k, item) :: rest =>
    if k = key then (k, f (some item)) :: rest else (k, item) :: change key f rest

/-- Puts an item where a path of keys leads, through tables that are made on the way. What stands
there already stays. -/
def Table.put (item : Item) : (path : List String) → Table → Table
  | [], entries => entries
  | [key], entries => entries.change key fun old ↦ old.getD item
  | key :: path, entries =>
    entries.change key fun
      | none => .table (put item path [])
      | some (.table inner) => .table (put item path inner)
      | some old => old

/-- Opens the table that a header names. A table that so far only led to others moves behind the
entries around it. -/
def Table.opened : (path : List String) → Table → Table
  | [], entries => entries
  | [key], entries =>
    match entries.lookup key with
    | some (.table inner) => entries.filter (·.1 != key) ++ [(key, .table inner)]
    | some _ => entries
    | none => entries ++ [(key, .table [])]
  | key :: path, entries =>
    entries.change key fun
      | none => .table (Table.opened path [])
      | some (.table inner) => .table (Table.opened path inner)
      | some old => old

namespace Item

def entries : Item → Table
  | inlineTable entries => entries
  | table entries => entries
  | _ => []

/-- The text that stands under a key of a table. -/
def textAt? (item : Item) (key : String) : Option String :=
  match item.entries.lookup key with
  | some (.text value) => some value
  | _ => none

end Item

end ProtoSchema.Manifest
