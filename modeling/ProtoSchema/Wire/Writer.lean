import ProtoSchema.Wire.Payload

/-!
# Writing steps

What a writer appends is described by steps: words, tags, runs of bytes, and frames whose content
is again a list of steps. A frame is written whole, behind its length, or not at all: when a step
inside it fails, nothing of the frame reaches the output.

A step is looked at in two ways: by the bytes that it appends, wherever it stands, and by what it
does to the buffer of a writer, which keeps what was written before a step that fails.
-/

set_option autoImplicit false

namespace ProtoSchema.Wire

/-- One act of writing; `failure` stands for content that cannot be produced. -/
inductive Step where
  | varint (w : UInt64)
  | tag (t : Tag)
  | fixed32 (w : UInt32)
  | fixed64 (w : UInt64)
  | lengthDelimited (b : Bytes)
  | raw (b : Bytes)
  | frame (steps : List Step)
  | failure (reason : String)
  deriving Inhabited

namespace Step

mutual

/-- The bytes that a step appends. -/
def encode : Step → Except String Bytes
  | varint w => .ok (Varint.encode w)
  | tag t => .ok t.encode
  | fixed32 w => .ok (writeFixed32 w)
  | fixed64 w => .ok (writeFixed64 w)
  | lengthDelimited b => .ok (writeLengthDelimited b)
  | raw b => .ok b
  | frame steps => (encodeAll steps).map writeLengthDelimited
  | failure reason => .error reason

/-- The bytes that a list of steps appends, up to the first that fails. -/
def encodeAll : List Step → Except String Bytes
  | [] => .ok []
  | s :: rest => do
    let bytes ← encode s
    let more ← encodeAll rest
    return bytes ++ more

end

end Step

/-- A writer, which is nothing but its buffer. -/
structure Writer where
  written : Bytes := []
  deriving DecidableEq, Repr, Inhabited

namespace Writer

/-- Puts bytes behind those that are written. -/
def append (w : Writer) (bytes : Bytes) : Writer := ⟨w.written ++ bytes⟩

mutual

/-- Carries out a step, and tells how it ended. The content of a frame goes to a writer of its own
first. -/
def perform (w : Writer) : Step → Writer × Except String Unit
  | .varint x => (w.append (Varint.encode x), .ok ())
  | .tag t => (w.append t.encode, .ok ())
  | .fixed32 x => (w.append (writeFixed32 x), .ok ())
  | .fixed64 x => (w.append (writeFixed64 x), .ok ())
  | .lengthDelimited b => (w.append (writeLengthDelimited b), .ok ())
  | .raw b => (w.append b, .ok ())
  | .frame steps =>
    match performAll {} steps with
    | (content, .ok ()) => (w.append (writeLengthDelimited content.written), .ok ())
    | (_, .error reason) => (w, .error reason)
  | .failure reason => (w, .error reason)

/-- Carries out steps up to the first that fails, and tells how that one ended. -/
def performAll (w : Writer) : List Step → Writer × Except String Unit
  | [] => (w, .ok ())
  | s :: rest =>
    match perform w s with
    | (next, .ok ()) => performAll next rest
    | (left, .error reason) => (left, .error reason)

end

end Writer

end ProtoSchema.Wire
