import ProtoSchema.Proofs.Wire.Record
import ProtoSchema.Wire.Reader
import ProtoSchema.Wire.Writer

/-!
# Reading undoes writing

A writer is told what to write, a reader only what kind of thing to look for. What the reader finds
is what was written, in the same order and with whatever stands behind it untouched, and this goes
through frames: the bytes of a frame are read by a reader of its own, which sees what was written
for the frame and nothing else.

The two sides are written separately and meet in the bytes. A step that is carried out appends the
bytes of the step, so the buffer is followed on one side; on the other side each kind of thing is
read back from its bytes whatever follows, so a sequence is read back one thing after the other.
Neither side knows in advance how long a frame is, and the one thing that has to be asked of a frame
is that its length fits a word.

A step that fails appends nothing. Of a sequence that fails the buffer keeps what stands before the
step that failed, which is why a frame has a buffer of its own.
-/

set_option autoImplicit false

namespace ProtoSchema.Wire

/-! ## What is left in a buffer -/

/-- What the steps append that come before the first that fails. -/
def Step.leading : List Step → Bytes
  | [] => []
  | s :: rest =>
    match s.encode with
    | .ok bytes => bytes ++ Step.leading rest
    | .error _ => []

theorem Step.leading_of_encodeAll {steps : List Step} {b : Bytes} (h : encodeAll steps = .ok b) :
    leading steps = b := by
  induction steps generalizing b with
  | nil =>
    cases h
    rfl
  | cons s rest ih =>
    rw [encodeAll] at h
    obtain ⟨bytes, hbytes, h⟩ := bind_eq_ok.1 h
    obtain ⟨more, hmore, h⟩ := bind_eq_ok.1 h
    cases h
    rw [leading, hbytes]
    exact congrArg (bytes ++ ·) (ih hmore)

namespace Writer

@[simp] theorem append_nil (w : Writer) : w.append [] = w := by
  rw [append, List.append_nil]

theorem append_append (w : Writer) (front back : Bytes) :
    (w.append front).append back = w.append (front ++ back) := by
  rw [append, append, append, List.append_assoc]

mutual

/-- A step appends its bytes, or nothing if it has none. -/
theorem perform_eq (w : Writer) (s : Step) :
    w.perform s = (w.append (s.encode.toOption.getD []), s.encode.map fun _ ↦ ()) := by
  match s with
  | .varint _ | .tag _ | .fixed32 _ | .fixed64 _ | .lengthDelimited _ | .raw _ =>
    rw [perform, Step.encode]
    rfl
  | .frame steps =>
    rw [perform, performAll_eq {} steps, Step.encode]
    cases h : Step.encodeAll steps with
    | ok content =>
      rw [Step.leading_of_encodeAll h]
      rfl
    | error reason =>
      change (w, _) = (w.append [], _)
      rw [append_nil]
      rfl
  | .failure reason =>
    rw [perform, Step.encode]
    change (w, _) = (w.append [], _)
    rw [append_nil]
    rfl

/-- A sequence of steps appends what comes before the first step that fails. -/
theorem performAll_eq (w : Writer) (steps : List Step) :
    w.performAll steps =
      (w.append (Step.leading steps), (Step.encodeAll steps).map fun _ ↦ ()) := by
  match steps with
  | [] =>
    rw [performAll, Step.leading, append_nil, Step.encodeAll]
    rfl
  | s :: rest =>
    rw [performAll, perform_eq w s, Step.leading, Step.encodeAll]
    cases h : s.encode with
    | ok bytes =>
      change (w.append bytes).performAll rest = _
      rw [performAll_eq (w.append bytes) rest, append_append]
      cases Step.encodeAll rest <;> rfl
    | error reason => rfl

end

end Writer

/-! ## What is written and what is asked for -/

/-- Something that can be written and found again. -/
inductive Datum where
  | varint (x : UInt64)
  | tag (t : {t : Tag // t.IsValid})
  | fixed32 (x : UInt32)
  | fixed64 (x : UInt64)
  | lengthDelimited (b : Bytes)
  | frame (content : List Datum)

/-- What a reader is told to look for: no values, only their kinds, and what to look for inside of
a frame. -/
inductive Request where
  | varint
  | tag
  | fixed32
  | fixed64
  | lengthDelimited
  | frame (inside : List Request)

/-- What a reader finds. Of a frame it tells how the reader of the frame stood when it was opened,
what it found, and how it stands now. -/
inductive Answer where
  | varint (x : UInt64)
  | tag (t : Tag)
  | fixed32 (x : UInt32)
  | fixed64 (x : UInt64)
  | lengthDelimited (b : Bytes)
  | frame (opened : Reader) (inside : List Answer) (left : Reader)

namespace Datum

mutual

/-- The step that writes a datum. -/
def step : Datum → Step
  | varint x => .varint x
  | tag t => .tag t
  | fixed32 x => .fixed32 x
  | fixed64 x => .fixed64 x
  | lengthDelimited b => .lengthDelimited b
  | frame content => .frame (steps content)

/-- The steps that write data. -/
def steps : List Datum → List Step
  | [] => []
  | d :: rest => d.step :: steps rest

end

mutual

/-- The request for a datum. -/
def request : Datum → Request
  | varint _ => .varint
  | tag _ => .tag
  | fixed32 _ => .fixed32
  | fixed64 _ => .fixed64
  | lengthDelimited _ => .lengthDelimited
  | frame content => .frame (requests content)

/-- The requests for data. -/
def requests : List Datum → List Request
  | [] => []
  | d :: rest => d.request :: requests rest

end

mutual

/-- The answer of a reader at a level of nesting that finds a datum: for a frame, a reader that
starts with what is written for the content and ends with nothing. -/
def answer (depth : Nat) : Datum → Answer
  | varint x => .varint x
  | tag t => .tag t
  | fixed32 x => .fixed32 x
  | fixed64 x => .fixed64 x
  | lengthDelimited b => .lengthDelimited b
  | frame content =>
    .frame ⟨(Writer.performAll {} (steps content)).1.written, depth⟩ (answers depth content)
      ⟨[], depth⟩

/-- The answers of a reader that finds data. -/
def answers (depth : Nat) : List Datum → List Answer
  | [] => []
  | d :: rest => d.answer depth :: answers depth rest

end

end Datum

namespace Reader

/-- Reads with a step, and answers with what was read. -/
def look {α : Type} (r : Reader) (step : Bytes → Except WireError (α × Bytes))
    (answer : α → Answer) : Except WireError (Answer × Reader) := do
  let (a, left) ← r.run step
  return (answer a, left)

mutual

/-- Looks for what is asked for. The content of a frame is read by a reader of its own. -/
def ask (r : Reader) : Request → Except WireError (Answer × Reader)
  | .varint => r.look Varint.decode .varint
  | .tag => r.look Tag.decode .tag
  | .fixed32 => r.look readFixed32 .fixed32
  | .fixed64 => r.look readFixed64 .fixed64
  | .lengthDelimited => r.look readLengthDelimited .lengthDelimited
  | .frame inside => do
    let (content, left) ← r.run readLengthDelimited
    let (found, rest) ← askAll (r.frame content) inside
    return (.frame (r.frame content) found rest, left)

/-- Looks for one thing after the other. -/
def askAll (r : Reader) : List Request → Except WireError (List Answer × Reader)
  | [] => .ok ([], r)
  | q :: rest => do
    let (a, left) ← ask r q
    let (more, last) ← askAll left rest
    return (a :: more, last)

end

section

variable {α : Type} {step : Bytes → Except WireError (α × Bytes)} {chunk : Bytes} {a : α}

/-- A reader reads what a step reads, and keeps its level. -/
theorem run_of_yields (h : Yields step chunk a) (rest : Bytes) (depth : Nat) :
    (⟨chunk ++ rest, depth⟩ : Reader).run step = .ok (a, ⟨rest, depth⟩) := by
  rw [run, h rest]
  rfl

theorem look_of_yields (h : Yields step chunk a) (answer : α → Answer) (rest : Bytes)
    (depth : Nat) :
    (⟨chunk ++ rest, depth⟩ : Reader).look step answer = .ok (answer a, ⟨rest, depth⟩) := by
  rw [look, run_of_yields h]
  rfl

end

end Reader

/-! ## Reading back -/

namespace Datum

mutual

/-- What can be found again can be written. -/
theorem exists_encode (d : Datum) : ∃ b, d.step.encode = .ok b := by
  match d with
  | varint _ | tag _ | fixed32 _ | fixed64 _ | lengthDelimited _ =>
    rw [step, Step.encode]
    exact ⟨_, rfl⟩
  | frame content =>
    obtain ⟨b, hb⟩ := exists_encodeAll content
    rw [step, Step.encode, hb]
    exact ⟨_, rfl⟩

theorem exists_encodeAll (data : List Datum) : ∃ b, Step.encodeAll (steps data) = .ok b := by
  match data with
  | [] => exact ⟨[], by rw [steps, Step.encodeAll]⟩
  | d :: rest =>
    obtain ⟨bytes, hbytes⟩ := exists_encode d
    obtain ⟨more, hmore⟩ := exists_encodeAll rest
    refine ⟨bytes ++ more, ?_⟩
    rw [steps, Step.encodeAll, hbytes, hmore]
    rfl

end

mutual

/-- A datum is found where its bytes stand, whatever follows them. -/
theorem ask_request (d : Datum) {b : Bytes} (h : d.step.encode = .ok b)
    (hl : b.length < UInt64.size) (rest : Bytes) (depth : Nat) :
    (⟨b ++ rest, depth⟩ : Reader).ask d.request = .ok (d.answer depth, ⟨rest, depth⟩) := by
  match d with
  | varint x =>
    rw [step, Step.encode] at h
    obtain rfl := Except.ok.inj h
    rw [request, Reader.ask, answer]
    exact Reader.look_of_yields (Varint.yields_encode x) .varint rest depth
  | tag t =>
    rw [step, Step.encode] at h
    obtain rfl := Except.ok.inj h
    rw [request, Reader.ask, answer]
    exact Reader.look_of_yields (Tag.yields_encode t.2) .tag rest depth
  | fixed32 x =>
    rw [step, Step.encode] at h
    obtain rfl := Except.ok.inj h
    rw [request, Reader.ask, answer]
    exact Reader.look_of_yields (yields_writeFixed32 x) .fixed32 rest depth
  | fixed64 x =>
    rw [step, Step.encode] at h
    obtain rfl := Except.ok.inj h
    rw [request, Reader.ask, answer]
    exact Reader.look_of_yields (yields_writeFixed64 x) .fixed64 rest depth
  | lengthDelimited c =>
    rw [step, Step.encode] at h
    obtain rfl := Except.ok.inj h
    have hc : c.length < UInt64.size := Nat.lt_of_le_of_lt (length_le_writeLengthDelimited c) hl
    rw [request, Reader.ask, answer]
    exact Reader.look_of_yields (yields_writeLengthDelimited hc) .lengthDelimited rest depth
  | frame content =>
    rw [step, Step.encode] at h
    obtain ⟨c, hc, rfl⟩ := map_eq_ok.1 h
    have hcl : c.length < UInt64.size := Nat.lt_of_le_of_lt (length_le_writeLengthDelimited c) hl
    -- The reader of the frame has nothing behind the content.
    have hinside := askAll_requests content hc hcl [] depth
    rw [List.append_nil] at hinside
    have hwritten : (Writer.performAll {} (steps content)).1.written = c := by
      rw [Writer.performAll_eq, Step.leading_of_encodeAll hc]
      rfl
    rw [request, Reader.ask, Reader.run_of_yields (yields_writeLengthDelimited hcl), answer,
      hwritten]
    dsimp only [ok_bind, Reader.frame]
    rw [hinside]
    rfl

/-- Data are found one after the other. -/
theorem askAll_requests (data : List Datum) {b : Bytes} (h : Step.encodeAll (steps data) = .ok b)
    (hl : b.length < UInt64.size) (rest : Bytes) (depth : Nat) :
    (⟨b ++ rest, depth⟩ : Reader).askAll (requests data) =
      .ok (answers depth data, ⟨rest, depth⟩) := by
  match data with
  | [] =>
    rw [steps, Step.encodeAll] at h
    cases h
    rw [requests, Reader.askAll, answers, List.nil_append]
  | d :: others =>
    rw [steps, Step.encodeAll] at h
    obtain ⟨bytes, hbytes, h⟩ := bind_eq_ok.1 h
    obtain ⟨more, hmore, h⟩ := bind_eq_ok.1 h
    cases h
    rw [List.length_append] at hl
    rw [requests, Reader.askAll, List.append_assoc,
      ask_request d hbytes (by omega) (more ++ rest) depth, answers]
    dsimp only [ok_bind]
    rw [askAll_requests others hmore (by omega) rest depth]
    rfl

end

end Datum

/-- **Reading undoes writing.** Data can be written behind whatever is in the buffer. As long as
lengths fit a word, a reader that is told to look for data of their kinds finds them, at any level
of nesting and whatever stands behind them: of each frame it finds exactly the content, up to its
end, and it is left with what stands behind the data. A frame with content that fails leaves the
buffer as it was. -/
theorem Writer.askAll_performAll (data : List Datum) (w : Writer) :
    (∃ b, w.performAll (Datum.steps data) = (w.append b, .ok ()) ∧
      (b.length < UInt64.size → ∀ rest depth,
        (⟨b ++ rest, depth⟩ : Reader).askAll (Datum.requests data) =
          .ok (Datum.answers depth data, ⟨rest, depth⟩))) ∧
      ∀ content reason, (performAll {} content).2 = .error reason →
        w.perform (.frame content) = (w, .error reason) := by
  constructor
  · obtain ⟨b, hb⟩ := Datum.exists_encodeAll data
    refine ⟨b, ?_, fun hl rest depth ↦ Datum.askAll_requests data hb hl rest depth⟩
    rw [performAll_eq, Step.leading_of_encodeAll hb, hb]
    rfl
  · intro content reason h
    rw [performAll_eq] at h
    have hencode : Step.encodeAll content = .error reason := map_eq_error.1 h
    rw [perform_eq, Step.encode, hencode]
    change (w.append [], _) = (w, _)
    rw [append_nil]
    rfl

/-- A frame that holds another one, behind a tag. -/
def Datum.framed : List Datum :=
  [.tag ⟨⟨3, .lengthDelimited⟩, by decide, by decide⟩,
    .frame [.varint 300, .frame [.fixed32 1, .lengthDelimited [7]], .fixed64 2]]

/-- Two bytes behind a frame are left over, and a frame that fails inside of another one leaves what
stands before it. -/
theorem Writer.askAll_performAll_framed :
    (∃ b, performAll {} (Datum.steps Datum.framed) = (({} : Writer).append b, .ok ()) ∧
      b.length < UInt64.size ∧
      (⟨b ++ [1, 2], 7⟩ : Reader).askAll (Datum.requests Datum.framed) =
        .ok (Datum.answers 7 Datum.framed, ⟨[1, 2], 7⟩)) ∧
      (performAll {} [.varint 1, .frame [.failure "cut"]]).2 = .error "cut" ∧
      perform ⟨[9]⟩ (.frame [.varint 1, .frame [.failure "cut"]]) = (⟨[9]⟩, .error "cut") := by
  obtain ⟨⟨b, hb, hread⟩, -⟩ := askAll_performAll Datum.framed {}
  obtain ⟨-, hfail⟩ := askAll_performAll Datum.framed ⟨[9]⟩
  have hlength : (performAll {} (Datum.steps Datum.framed)).1.written.length = 19 := by
    decide +kernel
  have hl : b.length < UInt64.size := by
    rw [hb, append, List.nil_append] at hlength
    rw [hlength]
    decide
  have hcut : (performAll {} [.varint 1, .frame [.failure "cut"]]).2 = .error "cut" := rfl
  exact ⟨⟨b, hb, hl, hread hl [1, 2] 7⟩, hcut, hfail _ _ hcut⟩

end ProtoSchema.Wire
