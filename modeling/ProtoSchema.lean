import ProtoSchema.Codec.Decode
import ProtoSchema.Codec.Encode
import ProtoSchema.Compilation.Unit
import ProtoSchema.Derive.Derivation
import ProtoSchema.Proofs.Building.Ending
import ProtoSchema.Proofs.Building.Fitting
import ProtoSchema.Proofs.Building.Rendering
import ProtoSchema.Proofs.Building.WellFormed
import ProtoSchema.Proofs.Codec.ClosedEnum
import ProtoSchema.Proofs.Codec.Conformance
import ProtoSchema.Proofs.Codec.Arrays
import ProtoSchema.Proofs.Codec.BigInteger
import ProtoSchema.Proofs.Codec.Entries
import ProtoSchema.Proofs.Codec.Evolution
import ProtoSchema.Proofs.Codec.Flattening
import ProtoSchema.Proofs.Codec.Kinds
import ProtoSchema.Proofs.Codec.LastValue
import ProtoSchema.Proofs.Codec.Nesting
import ProtoSchema.Proofs.Codec.Omission
import ProtoSchema.Proofs.Codec.Oneof
import ProtoSchema.Proofs.Codec.Packing
import ProtoSchema.Proofs.Codec.Parameters
import ProtoSchema.Proofs.Codec.Reordering
import ProtoSchema.Proofs.Codec.Truncation
import ProtoSchema.Proofs.Compilation.Claimants
import ProtoSchema.Proofs.Compilation.Committing
import ProtoSchema.Proofs.Compilation.Defining
import ProtoSchema.Proofs.Compilation.Recompile
import ProtoSchema.Proofs.Compilation.References
import ProtoSchema.Proofs.Compilation.Repeating
import ProtoSchema.Proofs.Compilation.Resolving
import ProtoSchema.Proofs.Compilation.SelfContained
import ProtoSchema.Proofs.Compilation.Stability
import ProtoSchema.Proofs.Compilation.Unexpanded
import ProtoSchema.Proofs.Derive.Enumeration
import ProtoSchema.Proofs.Derive.Integer
import ProtoSchema.Proofs.Derive.Message
import ProtoSchema.Proofs.Manifest.LibraryPath
import ProtoSchema.Proofs.Registry.Atomic
import ProtoSchema.Proofs.Schema.Literal
import ProtoSchema.Proofs.Value.Bridge
import ProtoSchema.Samples
import ProtoSchema.Schema.Printer
import ProtoSchema.Proofs.Compilation.Comments
import ProtoSchema.Proofs.Wire.Classification
import ProtoSchema.Proofs.Wire.Writer
import ProtoSchema.Value.Dump
import ProtoSchema.Wire.Hex
