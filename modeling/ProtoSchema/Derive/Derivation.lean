import ProtoSchema.Derive.Enumeration
import ProtoSchema.Manifest.LibraryPath

/-!
# Derivation

Derives the code that describes a native type from its declaration, for a package with a given
manifest.
-/

set_option autoImplicit false

namespace ProtoSchema.Derive

/-- The library that derived code relies on. -/
def libraryName : String := "vc_proto"

inductive Derivation where
  | message
  | enum
  deriving DecidableEq, Repr

/-- Derives the code for the declaration that a text holds. -/
def Derivation.run (derivation : Derivation) (manifest : Manifest.Table) (declaration : String) :
    Except DeriveError Code := do
  let d ← Declaration.parse declaration
  let library := Manifest.libraryPath manifest libraryName
  match derivation with
  | .message => d.deriveMessage library
  | .enum => d.deriveEnum library

end ProtoSchema.Derive
