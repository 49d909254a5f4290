import ProtoSchema.Derive.Grammar.Reading
import ProtoSchema.Derive.Lexer
import ProtoSchema.Manifest.Reader

/-!
# Paths to libraries

Derived code names the library that it relies on by an absolute path, and under which name a package
can reach a library depends on the package's manifest: dependencies may be renamed, and a library
of the family may be reached through the facade that bundles them. What is found must be a path;
keys of a manifest need not be.
-/

set_option autoImplicit false

namespace ProtoSchema.Manifest

open Derive

/-- The package that bundles the libraries of the family. -/
def facadeName : String := "vc_wire"

/-- What the names of the libraries of the family start with. -/
def familyStart : String := "vc_"

/-- The tables in which a library is looked up, in order. -/
def dependencyTables : List String := ["dependencies", "dev-dependencies"]

/-- The key under which a package is depended on: its own name, or the first key whose entry is
renamed from it. -/
def dependencyKey? (dependencies : Table) (package : String) : Option String :=
  if dependencies.any (·.1 == package) then some package
  else
    (dependencies.find? fun (_, item) ↦ item.textAt? "package" == some package).map (·.1)

/-- The code of a text that is as a whole what it should be. -/
def codeOf {α : Type} (text : String) (read : Readers → Scan α) : Except DeriveError Code :=
  match tokens? text with
  | none => .error (.invalidPath text)
  | some tokens =>
    match Scan.whole (read (readersFor tokens)) tokens with
    | .ok (_, written) => .ok (Token.codeAll written)
    | .error _ => .error (.invalidPath text)

/-- The absolute path that starts at a key. -/
def absolute (key : String) : Except DeriveError Code :=
  codeOf ("::" ++ key) fun r ↦ Grammar.wordPath r false

/-- A single part of a path. -/
def part (name : String) : Except DeriveError Code :=
  codeOf name fun r ↦ Grammar.segment r false

/-- The name of a library within its family. -/
def familyName? (library : String) : Option String :=
  if familyStart.toList.isPrefixOf library.toList then
    some (String.ofList (library.toList.drop familyStart.length))
  else none

/-- The path to a library by one table of dependencies, if the table offers one: by a key of its
own, or through the facade. -/
def pathIn (dependencies : Table) (library : String) : Option (Except DeriveError Code) :=
  match dependencyKey? dependencies library with
  | some key => some (absolute key)
  | none =>
    match familyName? library, dependencyKey? dependencies facadeName with
    | some name, some facade => some do return (← absolute facade) ++ [":", ":"] ++ (← part name)
    | _, _ => none

/-- The path to a library: by the first table that offers one, otherwise by the library's name. -/
def libraryPath (manifest : Table) (library : String) : Except DeriveError Code :=
  let found := dependencyTables.findSome? fun table ↦
    match manifest.lookup table with
    | some (.table dependencies) => pathIn dependencies library
    | _ => none
  found.getD (absolute library)

end ProtoSchema.Manifest
