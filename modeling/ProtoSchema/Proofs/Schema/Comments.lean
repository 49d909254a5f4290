import ProtoSchema.Proofs.Schema.Closing

/-!
# Files without their comments

The documentation of a file and what produced it are written as comments, on lines of their own and
in front of what they are about. So a file has the lines of the bare file, which has neither, with
silent lines between them. That is all it takes for the two to have the same tokens, if no line of
the bare file leaves a comment or a literal open.
-/

set_option autoImplicit false

namespace ProtoSchema

open Place

/-! ## Bare descriptions -/

/-- A field without its documentation. -/
def Field.bare (f : Field) : Field := { f with docs := none }

namespace MessageType

/-- A message without documentation. -/
def bare (m : MessageType) : MessageType :=
  { m with fields := m.fields.map Field.bare, docs := none }

/-- The documentation of a message and its fields. -/
def allDocs (m : MessageType) : List String := m.docs.toList ++ m.fields.flatMap (·.docs.toList)

end MessageType

namespace EnumType

/-- An enum without documentation. -/
def bare (e : EnumType) : EnumType :=
  { e with values := e.values.map fun v ↦ { v with docs := none }, docs := none }

/-- The documentation of an enum and its values. -/
def allDocs (e : EnumType) : List String := e.docs.toList ++ e.values.flatMap (·.docs.toList)

end EnumType

namespace Descriptor

/-- A type without documentation. -/
def bare : Descriptor → Descriptor
  | message m => message m.bare
  | enum e => enum e.bare

/-- All documentation of a type. -/
def allDocs : Descriptor → List String
  | message m => m.allDocs
  | enum e => e.allDocs

end Descriptor

namespace SchemaFile

/-- A file without documentation, of which it is not known what produced it. -/
def bare (f : SchemaFile) : SchemaFile :=
  { f with generator := none, types := f.types.map Descriptor.bare }

/-- All documentation of a file. -/
def allDocs (f : SchemaFile) : List String := f.types.flatMap Descriptor.allDocs

end SchemaFile

/-! ## Comments between lines

Whatever is documented has its documentation in front of its lines. So comments stand between the
lines of the bare text, and a block with comments between its lines has them between its own. -/

theorem Commented.docLines {indent : String} {docs : Option String} {a b : List String}
    (hindent : Spaces indent.toList) (hdocs : ∀ d ∈ docs.toList, StaysInside d.toList)
    (h : Commented a b) : Commented (docLines indent docs ++ a) b := by
  refine .comment (silent_docLines hindent fun d hd ↦ hdocs d ?_) h
  rw [hd]
  exact List.mem_singleton.2 rfl

theorem Field.commented_lines {package : Option String} {indent : String} {f : Field}
    (hindent : Spaces indent.toList) (hdocs : ∀ d ∈ f.docs.toList, StaysInside d.toList) :
    Commented (f.lines package indent) (f.bare.lines package indent) :=
  .docLines hindent hdocs (.refl _)

theorem commented_oneofLines {package : Option String} {group : String} {members : List Field}
    (hdocs : ∀ f ∈ members, ∀ d ∈ f.docs.toList, StaysInside d.toList) :
    Commented (oneofLines package group members)
      (oneofLines package group (members.map Field.bare)) := by
  refine .append (.append (.refl _) (.flatMap fun f hf ↦ ?_)) (.refl _)
  exact Field.commented_lines (by decide) (hdocs f hf)

namespace MessageType

theorem filter_map_bare (all : List Field) (group : String) :
    (all.map Field.bare).filter (fun m ↦ m.oneof == some group) =
      (all.filter fun m ↦ m.oneof == some group).map Field.bare := by
  rw [List.filter_map]
  rfl

theorem commented_bodyLines {package : Option String} {all rest : List Field}
    {written : List String} (hall : ∀ f ∈ all, ∀ d ∈ f.docs.toList, StaysInside d.toList)
    (hrest : ∀ f ∈ rest, f ∈ all) :
    Commented (bodyLines package all written rest)
      (bodyLines package (all.map Field.bare) written (rest.map Field.bare)) := by
  induction rest generalizing written with
  | nil => exact .nil
  | cons f rest ih =>
    obtain ⟨hf, hrest⟩ := List.forall_mem_cons.1 hrest
    have honeof : f.bare.oneof = f.oneof := rfl
    rw [List.map_cons, bodyLines, bodyLines, honeof]
    split
    · exact .append (Field.commented_lines (by decide) (hall f hf)) (ih hrest)
    · next group _ =>
      split
      · exact ih hrest
      · rw [filter_map_bare]
        exact .append (commented_oneofLines fun m hm ↦ hall m (List.mem_filter.1 hm).1) (ih hrest)

theorem commented_lines {package : Option String} {m : MessageType}
    (hdocs : ∀ d ∈ m.allDocs, StaysInside d.toList) :
    Commented (m.lines package) (m.bare.lines package) := by
  obtain ⟨hown, hfields⟩ := List.forall_mem_append.1 hdocs
  refine .append (.append (.docLines (by decide) hown (.refl _)) ?_) (.refl _)
  refine commented_bodyLines (fun f hf d hd ↦ hfields d ?_) fun f hf ↦ hf
  exact List.mem_flatMap.2 ⟨f, hf, hd⟩

end MessageType

theorem EnumType.commented_lines {e : EnumType} (hdocs : ∀ d ∈ e.allDocs, StaysInside d.toList) :
    Commented e.lines e.bare.lines := by
  obtain ⟨hown, hvalues⟩ := List.forall_mem_append.1 hdocs
  refine .append (.append (.docLines (by decide) hown (.refl _)) (.flatMap fun v hv ↦ ?_)) (.refl _)
  exact .docLines (by decide) (fun d hd ↦ hvalues d (List.mem_flatMap.2 ⟨v, hv, hd⟩)) (.refl _)

theorem silent_lineComment (text : List Char) (h : '\n' ∉ text) :
    Silent ("//".toList ++ text ++ ['\n']) := by
  have hline : lineComment.read text = ([], lineComment) := by
    induction text with
    | nil => rfl
    | cons c rest ih =>
      obtain ⟨hc, hrest⟩ := List.ne_and_not_mem_of_not_mem_cons h
      rw [Place.read, next, if_neg (Ne.symm hc), ih hrest]
      rfl
  have hslashes : between.read "//".toList = ([], lineComment) := by decide
  rw [Silent, read_append, read_append, hslashes, hline]
  rfl

namespace SchemaFile

theorem commented_headerLines {f : SchemaFile}
    (h : ∀ g, f.generator = some g → '\n' ∉ f.name.toList ∧ '\n' ∉ g.toList) :
    Commented f.headerLines f.bare.headerLines := by
  refine .append (.append (.append ?_ (.refl _)) (.refl _)) (.refl _)
  cases hg : f.generator with
  | none => exact .nil
  | some g =>
    obtain ⟨hname, hgenerator⟩ := h g hg
    refine .of_silent ?_
    rw [textOf_cons, textOf_singleton]
    refine .append ?_ rfl
    have hline := silent_lineComment (" File `".toList ++ f.name.toList ++
      "` generated by ".toList ++ g.toList ++ ['.']) (by simp [hname, hgenerator])
    simpa using hline

/-- A file is the bare file with comments between its lines. -/
theorem commented_lines {f : SchemaFile} (hdocs : ∀ d ∈ f.allDocs, StaysInside d.toList)
    (hheader : ∀ g, f.generator = some g → '\n' ∉ f.name.toList ∧ '\n' ∉ g.toList) :
    Commented f.lines f.bare.lines := by
  refine .append (commented_headerLines hheader) (.flatMap fun d hd ↦ .line _ ?_)
  have hdocs : ∀ t ∈ d.allDocs, StaysInside t.toList :=
    fun t ht ↦ hdocs t (List.mem_flatMap.2 ⟨d, hd, ht⟩)
  cases d with
  | message m => exact m.commented_lines hdocs
  | enum e => exact e.commented_lines hdocs

end SchemaFile

/-! ## Lines without comments

Names are copied and everything else is printed. A line of the bare file is therefore closed where
its names are plain. -/

/-- The names that a message copies are plain. -/
structure MessageType.PlainNames (m : MessageType) : Prop where
  name : Plain m.name.toList
  fields : ∀ f ∈ m.fields, f.PlainNames
  oneofs : ∀ f ∈ m.fields, ∀ g, f.oneof = some g → Plain g.toList

/-- The names that an enum copies are plain. -/
structure EnumType.PlainNames (e : EnumType) : Prop where
  name : Plain e.name.toList
  values : ∀ v ∈ e.values, Plain v.name.toList

/-- The names that a type copies are plain. -/
def Descriptor.PlainNames : Descriptor → Prop
  | message m => m.PlainNames
  | enum e => e.PlainNames

/-- The names that a file copies are plain; file names stand between quotes and may have anything
but what would end them there. -/
structure SchemaFile.PlainNames (f : SchemaFile) : Prop where
  package : ∀ p, f.package = some p → Plain p.toList
  imports : ∀ i ∈ f.imports, Unquoted i.toList
  types : ∀ d ∈ f.types, d.PlainNames

theorem Field.keepsCode_bare_lines {package : Option String} {indent : String} {f : Field}
    (hindent : Plain indent.toList) (h : f.PlainNames) :
    ∀ l ∈ f.bare.lines package indent, KeepsCode l.toList := by
  have hlines : f.bare.lines package indent = [indent ++ f.declaration package] := rfl
  rw [hlines, List.forall_mem_singleton, String.toList_append]
  exact .append (.plain hindent) (keepsCode_declaration h)

theorem keepsCode_opening {word name : String} (hword : Plain word.toList)
    (hname : Plain name.toList) : KeepsCode (word ++ name ++ " \x7b").toList := by
  simp only [String.toList_append]
  exact .plain (.append (.append hword hname) (by decide))

theorem keepsCode_oneofLines {package : Option String} {group : String} {members : List Field}
    (hgroup : Plain group.toList) (hmembers : ∀ f ∈ members, f.PlainNames) :
    ∀ l ∈ oneofLines package group (members.map Field.bare), KeepsCode l.toList := by
  unfold oneofLines
  rw [List.forall_mem_append, List.forall_mem_append, List.forall_mem_singleton,
    List.forall_mem_singleton]
  refine ⟨⟨keepsCode_opening (by decide) hgroup, fun l hl ↦ ?_⟩, .plain (by decide)⟩
  obtain ⟨f', hf', hl⟩ := List.mem_flatMap.1 hl
  obtain ⟨f, hf, rfl⟩ := List.mem_map.1 hf'
  exact Field.keepsCode_bare_lines (by decide) (hmembers f hf) l hl

namespace MessageType

theorem keepsCode_bodyLines {package : Option String} {all rest : List Field}
    {written : List String} (hall : ∀ f ∈ all, f.PlainNames)
    (honeofs : ∀ f ∈ all, ∀ g, f.oneof = some g → Plain g.toList) (hrest : ∀ f ∈ rest, f ∈ all) :
    ∀ l ∈ bodyLines package (all.map Field.bare) written (rest.map Field.bare),
      KeepsCode l.toList := by
  induction rest generalizing written with
  | nil => exact List.forall_mem_nil _
  | cons f rest ih =>
    obtain ⟨hf, hrest⟩ := List.forall_mem_cons.1 hrest
    have honeof : f.bare.oneof = f.oneof := rfl
    rw [List.map_cons, bodyLines, honeof]
    split
    · exact List.forall_mem_append.2
        ⟨Field.keepsCode_bare_lines (by decide) (hall f hf), ih hrest⟩
    · next group hgroup =>
      split
      · exact ih hrest
      · rw [filter_map_bare]
        exact List.forall_mem_append.2 ⟨keepsCode_oneofLines (honeofs f hf group hgroup)
          fun m hm ↦ hall m (List.mem_filter.1 hm).1, ih hrest⟩

theorem PlainNames.keepsCode_lines {package : Option String} {m : MessageType}
    (h : m.PlainNames) : ∀ l ∈ m.bare.lines package, KeepsCode l.toList := by
  have hlines : m.bare.lines package = ["message " ++ m.name ++ " \x7b"] ++
      bodyLines package (m.fields.map Field.bare) [] (m.fields.map Field.bare) ++ ["\x7d"] := rfl
  rw [hlines, List.forall_mem_append, List.forall_mem_append, List.forall_mem_singleton,
    List.forall_mem_singleton]
  exact ⟨⟨keepsCode_opening (by decide) h.name,
    keepsCode_bodyLines h.fields h.oneofs fun f hf ↦ hf⟩, .plain (by decide)⟩

end MessageType

theorem EnumType.PlainNames.keepsCode_lines {e : EnumType} (h : e.PlainNames) :
    ∀ l ∈ e.bare.lines, KeepsCode l.toList := by
  have hlines : e.bare.lines = ["enum " ++ e.name ++ " \x7b"] ++
      e.bare.values.flatMap (fun v ↦
        docLines indentation v.docs
          ++ [indentation ++ v.name ++ " = " ++ toString v.number.toInt ++ ";"]) ++
      ["\x7d"] := rfl
  rw [hlines, List.forall_mem_append, List.forall_mem_append, List.forall_mem_singleton,
    List.forall_mem_singleton]
  refine ⟨⟨keepsCode_opening (by decide) h.name, fun l hl ↦ ?_⟩, .plain (by decide)⟩
  obtain ⟨v', hv', hl⟩ := List.mem_flatMap.1 hl
  obtain ⟨v, hv, rfl⟩ := List.mem_map.1 hv'
  obtain rfl := List.mem_singleton.1 hl
  simp only [String.toList_append]
  exact .plain (.append (.append (.append (.append (by decide) (h.values v hv)) (by decide))
    (plain_int _)) (by decide))

namespace SchemaFile

variable {f : SchemaFile}

theorem keepsCode_import {i : String} (h : Unquoted i.toList) :
    KeepsCode ("import \"" ++ i ++ "\";").toList := by
  have hquoted := (KeepsCode.plain (a := "import ".toList) (by decide)).append
    ((KeepsCode.quoted (.unquoted h)).append (.plain (a := [';']) (by decide)))
  simpa using hquoted

theorem PlainNames.keepsCode_headerLines (h : f.PlainNames) :
    ∀ l ∈ f.bare.headerLines, KeepsCode l.toList := by
  unfold headerLines
  rw [List.forall_mem_append, List.forall_mem_append, List.forall_mem_append,
    List.forall_mem_singleton]
  refine ⟨⟨⟨List.forall_mem_nil _, ?_⟩, ?_⟩, ?_⟩
  · have hquoted := (KeepsCode.plain (a := "syntax = ".toList) (by decide)).append
      ((KeepsCode.quoted (.unquoted (a := "proto2".toList) (by decide))).append
        (.plain (a := [';']) (by decide)))
    exact hquoted
  · split
    · next package hpackage =>
      rw [List.forall_mem_cons, List.forall_mem_singleton]
      simp only [String.toList_append]
      exact ⟨.plain (by decide),
        .plain (.append (.append (by decide) (h.package package hpackage)) (by decide))⟩
    · exact List.forall_mem_nil _
  · split
    · exact List.forall_mem_nil _
    · exact List.forall_mem_cons.2 ⟨.plain (by decide),
        List.forall_mem_map.2 fun i hi ↦ keepsCode_import (h.imports i hi)⟩

theorem PlainNames.keepsCode_lines (h : f.PlainNames) :
    ∀ l ∈ f.bare.lines, KeepsCode l.toList := by
  refine List.forall_mem_append.2 ⟨h.keepsCode_headerLines, fun l hl ↦ ?_⟩
  obtain ⟨d', hd', hl⟩ := List.mem_flatMap.1 hl
  obtain ⟨d, hd, rfl⟩ := List.mem_map.1 hd'
  rcases List.mem_cons.1 hl with rfl | hl
  · exact .plain (by decide)
  · have hnames := h.types d hd
    cases d with
    | message m => exact MessageType.PlainNames.keepsCode_lines hnames l hl
    | enum e => exact EnumType.PlainNames.keepsCode_lines hnames l hl

/-- **Comments give no tokens**, so a file has the tokens of the bare file. -/
theorem PlainNames.tokens_render (h : f.PlainNames)
    (hdocs : ∀ d ∈ f.allDocs, StaysInside d.toList)
    (hheader : ∀ g, f.generator = some g → '\n' ∉ f.name.toList ∧ '\n' ∉ g.toList) :
    tokens f.render.toList = tokens f.bare.render.toList := by
  rw [toList_render, toList_render]
  exact (commented_lines hdocs hheader).tokens_eq fun l hl ↦ (h.keepsCode_lines l hl).closed

end SchemaFile

end ProtoSchema
