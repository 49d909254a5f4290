import Mathlib.Data.List.DropRight
import ProtoSchema.Proofs.Wire.Split
import ProtoSchema.Wire.Unknown

/-!
# Histories of unknown fields

Which records are retained is written down nowhere: the set is a run of bytes, and its tags are
found by reading the run again, up to the first thing that is no record. That nothing is lost this
way rests on how the bytes came there. Each push adds a complete record, and a complete record is
read alike wherever it stands, so the run falls apart into the pieces that were pushed.

A record that arrived from elsewhere may be padded in its tag, in its length and in its value. All
that is asked of it is that its tag is read as one, to its end, and the rest as a value of the wire
type of the tag, to its end; a form that the library would not write is a record all the same.
-/

set_option autoImplicit false

namespace ProtoSchema.Wire

/-! ## Complete records -/

/-- A complete record as it may arrive: any form of its tag, and behind it any form of its value. -/
structure CompleteRecord where
  record : Record
  tagBytes : Bytes
  valueBytes : Bytes
  reads_tag : Tag.decode tagBytes = .ok (record.tag, [])
  reads_value : Payload.decode record.tag.wireType valueBytes = .ok (record.payload, [])

namespace CompleteRecord

/-- The bytes of a complete record. -/
def bytes (r : CompleteRecord) : Bytes := r.tagBytes ++ r.valueBytes

theorem yields (r : CompleteRecord) : Yields Record.decode r.bytes r.record := by
  intro rest
  have htag := Tag.local_decode.yields_of_all r.reads_tag
  have hvalue := (Payload.local_decode _).yields_of_all r.reads_value
  rw [Record.decode_eq_ok, bytes, List.append_assoc]
  exact ⟨r.record.tag, r.valueBytes ++ rest, htag _, rfl, hvalue rest⟩

end CompleteRecord

namespace UnknownFields

/-! ## Records and their tags

A record at the front of the bytes is found by its tag and skipped by the wire type of the tag. -/

theorem yields_varintRecord {number : Nat} (h : Tag.IsValid ⟨number, .varint⟩)
    (w : UInt64) : Yields Record.decode (varintRecord number w) ⟨number, .varint w⟩ := by
  intro rest
  rw [Record.decode_eq_ok, varintRecord, List.append_assoc]
  exact ⟨_, _, Tag.yields_encode h _, rfl, (Varint.yields_encode w).readAs Payload.varint rest⟩

theorem firstTag?_append {chunk : Bytes} {r : Record}
    (h : Yields Record.decode chunk r) (rest : Bytes) :
    firstTag? (chunk ++ rest) = some (r.tag, rest) := by
  obtain ⟨⟨number, wireType⟩, afterTag, ht, rfl, hp⟩ := Record.decode_eq_ok.1 (h rest)
  have hw := Payload.wireType_of_decode hp
  rw [firstTag?, ht]
  dsimp only at hp ⊢
  rw [hp, Record.tag, hw]

/-- **One tag for each record.** Bytes that are put together from records have their tags. -/
theorem tagsOf_flatMap {pieces : List (Bytes × Record)}
    (h : ∀ piece ∈ pieces, Yields Record.decode piece.1 piece.2) :
    tagsOf (pieces.flatMap (·.1)) = pieces.map (·.2.tag) := by
  induction pieces with
  | nil =>
    rw [List.flatMap_nil, tagsOf]
    rfl
  | cons piece rest ih =>
    have hfirst := firstTag?_append (h piece List.mem_cons_self) (rest.flatMap (·.1))
    rw [List.flatMap_cons, List.map_cons, ← ih fun p hp ↦ h p (List.mem_cons_of_mem _ hp), tagsOf]
    split
    · next hnone =>
      rw [hfirst] at hnone
      cases hnone
    · next hsome =>
      rw [hfirst] at hsome
      cases hsome
      rfl

/-! ## Actions -/

/-- What can be done to the retained records. -/
inductive Action where
  | push (r : CompleteRecord)
  | pushVarint (number : {n : Nat // 1 ≤ n ∧ n ≤ maxFieldNumber}) (w : UInt64)
  | clear

/-- The retained records after an action. -/
def act (u : UnknownFields) : Action → UnknownFields
  | .push r => u.push r.bytes
  | .pushVarint number w => u.pushVarint number w
  | .clear => .empty

/-- The retained records after actions on none. -/
def run (actions : List Action) : UnknownFields := actions.foldl act .empty

/-- What an action pushes: a record and its bytes. -/
def Action.pushed? : Action → Option (Bytes × Record)
  | push r => some (r.bytes, r.record)
  | pushVarint number w =>
    some (Tag.encode ⟨number, .varint⟩ ++ Varint.encode w, ⟨number, .varint w⟩)
  | clear => none

/-- Whether an action pushes anything. -/
def Action.pushes (a : Action) : Bool := a.pushed?.isSome

/-- What was pushed since the records were last cleared. -/
def pushed (actions : List Action) : List (Bytes × Record) :=
  (actions.rtakeWhile Action.pushes).filterMap Action.pushed?

variable {a : Action} {piece : Bytes × Record}

theorem pushed_concat (actions : List Action) (h : a.pushed? = some piece) :
    pushed (actions ++ [a]) = pushed actions ++ [piece] := by
  have hpushes : a.pushes = true := by rw [Action.pushes, h, Option.isSome_some]
  rw [pushed, List.rtakeWhile_concat_pos _ _ _ hpushes, List.filterMap_append, pushed,
    List.filterMap_cons_some h, List.filterMap_nil]

theorem pushed_concat_none (actions : List Action) (h : a.pushed? = none) :
    pushed (actions ++ [a]) = [] := by
  have hpushes : ¬a.pushes = true := by
    rw [Action.pushes, h]
    exact Bool.false_ne_true
  rw [pushed, List.rtakeWhile_concat_neg _ _ _ hpushes, List.filterMap_nil]

theorem run_concat (actions : List Action) (a : Action) :
    run (actions ++ [a]) = (run actions).act a := List.foldl_concat ..

theorem act_of_pushed? (u : UnknownFields) (h : a.pushed? = some piece) :
    u.act a = u.push piece.1 := by
  cases a <;> cases h <;> rfl

/-- What pushes nothing clears. -/
theorem act_of_none (u : UnknownFields) (h : a.pushed? = none) : u.act a = .empty := by
  cases a <;> cases h
  rfl

/-- What is pushed is read wherever it stands. -/
theorem Action.yields_of_pushed? (h : a.pushed? = some piece) :
    Yields Record.decode piece.1 piece.2 := by
  cases a with
  | push r =>
    cases h
    exact r.yields
  | pushVarint number w =>
    cases h
    exact yields_varintRecord number.2 w
  | clear => cases h

/-! ## Runs of actions

An action puts something behind what is there, or clears it. So what is there was pushed since the
last action that cleared. -/

theorem yields_of_mem_pushed {actions : List Action} (h : piece ∈ pushed actions) :
    Yields Record.decode piece.1 piece.2 := by
  obtain ⟨a, -, ha⟩ := List.mem_filterMap.1 h
  exact Action.yields_of_pushed? ha

theorem bytes_run (actions : List Action) :
    (run actions).bytes = (pushed actions).flatMap (·.1) := by
  induction actions using List.reverseRecOn with
  | nil => rfl
  | append_singleton actions a ih =>
    rw [run_concat]
    cases h : a.pushed? with
    | none =>
      rw [act_of_none _ h, pushed_concat_none actions h]
      rfl
    | some piece =>
      rw [act_of_pushed? _ h, push, pushed_concat actions h, ih, List.flatMap_append,
        List.flatMap_singleton]

theorem tags_run (actions : List Action) :
    (run actions).tags = (pushed actions).map (·.2.tag) := by
  rw [tags, bytes_run]
  exact tagsOf_flatMap fun _ hpiece ↦ yields_of_mem_pushed hpiece

/-- **Unknown fields list what they hold.** Whatever was done, the bytes are those of the records
that were pushed since the last clearing, and there is one tag for each of them, in their order and
as often as they were pushed. One more push adds its bytes and its tag at the end and leaves what is
there. -/
theorem listed_run (actions : List Action) :
    (run actions).bytes = (pushed actions).flatMap (·.1) ∧
      (run actions).tags = (pushed actions).map (·.2.tag) ∧
      ∀ a piece, a.pushed? = some piece →
        ((run actions).act a).bytes = (run actions).bytes ++ piece.1 ∧
          ((run actions).act a).tags = (run actions).tags ++ [piece.2.tag] := by
  refine ⟨bytes_run actions, tags_run actions, fun a piece h ↦ ?_⟩
  constructor
  · rw [act_of_pushed? _ h, push]
  · rw [← run_concat, tags_run, tags_run, pushed_concat actions h, List.map_append,
      List.map_singleton]

/-- A record with padding in its tag and in its length. -/
def padded : CompleteRecord where
  record := ⟨5, .bytes [0x78]⟩
  tagBytes := [0xAA, 0x80, 0x00]
  valueBytes := [0x81, 0x00, 0x78]
  reads_tag := by decide +kernel
  reads_value := by decide +kernel

/-- After a clearing a padded record is pushed twice and then a varint. -/
theorem listed_run_padded :
    (run [.pushVarint ⟨1, by decide⟩ 7, .clear, .push padded, .push padded]).tags =
        [⟨5, .lengthDelimited⟩, ⟨5, .lengthDelimited⟩] ∧
      (Action.pushVarint ⟨9, by decide⟩ 3).pushed? = some ([0x48, 0x03], ⟨9, .varint 3⟩) ∧
      ((run [.pushVarint ⟨1, by decide⟩ 7, .clear, .push padded, .push padded]).act
        (.pushVarint ⟨9, by decide⟩ 3)).tags =
        [⟨5, .lengthDelimited⟩, ⟨5, .lengthDelimited⟩, ⟨9, .varint⟩] := by
  obtain ⟨-, htags, hpush⟩ :=
    listed_run [.pushVarint ⟨1, by decide⟩ 7, .clear, .push padded, .push padded]
  have hpushed : (Action.pushVarint ⟨9, by decide⟩ 3).pushed? =
      some ([0x48, 0x03], ⟨9, .varint 3⟩) := by decide +kernel
  refine ⟨htags, hpushed, (hpush _ _ hpushed).2.trans ?_⟩
  rw [htags]
  rfl

end UnknownFields

end ProtoSchema.Wire
