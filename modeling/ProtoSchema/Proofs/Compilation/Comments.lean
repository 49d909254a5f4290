import ProtoSchema.Proofs.Building.WellFormed
import ProtoSchema.Proofs.Compilation.Defining
import ProtoSchema.Proofs.Compilation.SelfContained
import ProtoSchema.Proofs.Schema.Comments

/-!
# Comments of compiled files

The names in a compiled file are checked: packages, types, fields, oneofs and enum values have
identifiers for names, and what a type refers to is generated under such a name or imported from the
registry. What is not checked is copied as it is: documentation into block comments, the name of the
file and what produced it into a line comment, the names of imported files between quotes, and the
name of a default as the referenced enum has it. Two compiled files in which none of these texts
ends what it stands in have the same tokens if they differ in comments only.
-/

set_option autoImplicit false

namespace ProtoSchema

open Text

/-! ## Checked names -/

theorem plain_of_splitAt {text : List Char} (h : ∀ part ∈ splitAt '.' text, Plain part) :
    Plain text := by
  induction text with
  | nil => exact List.forall_mem_nil _
  | cons c rest ih =>
    obtain ⟨first, others, hsplit, -, -⟩ := splitAt_pieces '.' rest
    rw [splitAt, hsplit] at h
    rw [hsplit] at ih
    by_cases hc : c = '.'
    · rw [if_pos hc, List.forall_mem_cons] at h
      exact List.forall_mem_cons.2 ⟨by rw [hc]; decide, ih h.2⟩
    · rw [if_neg hc, List.forall_mem_cons] at h
      obtain ⟨hc, hfirst⟩ := List.forall_mem_cons.1 h.1
      exact List.forall_mem_cons.2 ⟨hc, ih (List.forall_mem_cons.2 ⟨hfirst, h.2⟩)⟩

theorem plain_of_isPackage {name : String} (h : isPackage name = true) : Plain name.toList :=
  plain_of_splitAt fun part hpart ↦
    plain_of_isIdentifierList (List.all_eq_true.1 h part hpart)

theorem plain_qualify {package : Option String} {name : String}
    (hpackage : ∀ p, package = some p → Plain p.toList) (hname : Plain name.toList) :
    Plain (qualify package name).toList := by
  unfold qualify
  split
  · next p =>
    split
    · exact hname
    · simp only [String.toList_append]
      exact .append (.append (hpackage p rfl) (by decide)) hname
  · exact hname

theorem CompilationUnit.plain_package {u : CompilationUnit} (h : u.check = .ok ()) {p : String}
    (hp : u.package = some p) : Plain p.toList := by
  rw [check, hp] at h
  obtain ⟨-, h⟩ := ite_error_eq_ok.1 h
  exact plain_of_isPackage (ite_ok_eq_ok.1 h).1

/-! ## Built types

Building checks the names that a description brings along, and what it refers to is named by the
resolver. Only the names of defaults pass unchecked. -/

section

variable {env : Environment} {resolve : Resolver} {ref : TypeRef} {built : Built}

theorem isIdentifier_of_build {info : TypeInfo} (hinfo : ref.info? env = some info)
    (h : (build env resolve ref).result = .ok built) :
    built.descriptor.name = info.typeName ∧ isIdentifier info.typeName = true := by
  refine ⟨(names_of_build hinfo h).1, ?_⟩
  unfold build at h
  rw [hinfo] at h
  dsimp only at h
  split at h
  · split at h
    · cases h
    · next hidentifier => simpa using hidentifier
  · cases h

theorem exists_build_of_generate {fileName : String} {stamp : Stamp} {n : Node} {r : Registration}
    (h : (generate env resolve fileName stamp n).result = .ok r) :
    ∃ built, (build env resolve n.ref).result = .ok built ∧ r.descriptor = built.descriptor := by
  unfold generate at h
  split at h
  · obtain ⟨built, hbuilt, h⟩ := Logged.bind_eq_ok.1 h
    obtain ⟨marshaller, -, h⟩ := Logged.bind_eq_ok.1 h
    obtain ⟨_, -, h⟩ := Logged.bind_eq_ok.1 h
    cases h
    exact ⟨built, hbuilt, rfl⟩
  · cases h

/-- The name of an enum value that a default copies. -/
def DefaultValue.enumName? : DefaultValue → Option String
  | enum name _ => some name
  | _ => none

/-- The names of enum values that the defaults of a type copy. -/
def Descriptor.defaultNames : Descriptor → List String
  | message m => m.fields.filterMap (·.default.bind DefaultValue.enumName?)
  | enum _ => []

/-- A built type has plain names, if it refers to plain names only. -/
theorem plainNames_of_build (h : (build env resolve ref).result = .ok built)
    (hreferences : ∀ name ∈ built.descriptor.references, Plain name.toList)
    (hdefaults : ∀ name ∈ built.descriptor.defaultNames, Plain name.toList) :
    built.descriptor.PlainNames := by
  obtain ⟨info, hinfo, hwellFormed⟩ := wellFormed_of_build h
  obtain ⟨hname, hidentifier⟩ := isIdentifier_of_build hinfo h
  have hplain : Plain built.descriptor.name.toList := by
    rw [hname]
    exact plain_of_isIdentifier hidentifier
  cases built with
  | enum e => exact ⟨hplain, fun v hv ↦ plain_of_isIdentifier (hwellFormed.identifiers v hv)⟩
  | message b =>
    have hfields : ∀ f ∈ b.descriptor.fields, ∃ m, f.WellFormed env m := by
      intro f hf
      obtain ⟨binding, -, _, m, -, hm⟩ := exists_of_forall₂_left hwellFormed.fields hf
      exact ⟨m, hm⟩
    refine ⟨hplain, fun f hf ↦ ?_, fun f hf g hg ↦ ?_⟩
    · obtain ⟨m, hm⟩ := hfields f hf
      refine ⟨plain_of_isIdentifier hm.name.2, fun name htype ↦ ?_, fun name n hdefault ↦ ?_⟩
      · exact hreferences name (List.mem_filterMap.2 ⟨f, hf, htype⟩)
      · exact hdefaults name (List.mem_filterMap.2 ⟨f, hf, by rw [hdefault]; rfl⟩)
    · obtain ⟨m, hm⟩ := hfields f hf
      exact plain_of_isIdentifier (hm.oneof.2 g hg).1

end

/-! ## Compiled files

The schema of a file is followed from its package to its types. The names of types that are
generated come from their descriptions, and those of imported ones from the registry, where they are
plain because they were generated once. -/

/-- All registered types have plain names. -/
def Registry.PlainNames (r : Registry) : Prop := ∀ t e, r.get? t = some e → Plain e.name.toList

section

variable {u : CompilationUnit} {env : Environment} {registry : Registry} {occasion : Nat}
  {p : Prepared}

/-- The types of a prepared file are built, and their names are those of their descriptions behind
the package of the unit. -/
theorem CompilationUnit.exists_build_of_prepare
    (h : (u.prepare env registry occasion).result = .ok p)
    {d : Descriptor} (hd : d ∈ p.file.types) :
    ∃ (resolve : Resolver) (ref : TypeRef) (info : TypeInfo) (built : Built),
      ref.info? env = some info ∧ (build env resolve ref).result = .ok built ∧
      d = built.descriptor ∧ d.qualifiedName = qualify u.package info.typeName := by
  obtain ⟨-, nodes, generated, hnodes, hgenerated, rfl⟩ := prepare_iff.1 h
  obtain ⟨⟨n, r⟩, hg, rfl⟩ := List.mem_map.1 hd
  obtain ⟨hn, hdecision, stamp, hr⟩ := (generateAll_eq_ok hgenerated).2 _ hg
  have hname := (generated_sound hnodes hgenerated _ hg).2.2.2
  dsimp only at hn hdecision hr hname
  obtain ⟨built, hbuilt, hdescriptor⟩ := exists_build_of_generate hr
  have hadds := WalkContext.adds_of_closure hnodes n hn
  cases hadds with
  | imported => cases hdecision
  | generated _ hinfo => exact ⟨_, _, _, built, hinfo, hbuilt, hdescriptor, hname⟩

theorem CompilationUnit.plain_qualifiedName (h : (u.prepare env registry occasion).result = .ok p)
    {d : Descriptor} (hd : d ∈ p.file.types) : Plain d.qualifiedName.toList := by
  obtain ⟨resolve, ref, info, built, hinfo, hbuilt, -, hname⟩ := exists_build_of_prepare h hd
  rw [hname]
  exact plain_qualify (fun package ↦ plain_package (prepare_iff.1 h).1)
    (plain_of_isIdentifier (isIdentifier_of_build hinfo hbuilt).2)

theorem Registry.PlainNames.commit {earlier reg' : Registry} (hreg : registry.PlainNames)
    (hprepare : (u.prepare env earlier occasion).result = .ok p)
    (hcommit : (p.commit registry).result = .ok reg') : reg'.PlainNames := by
  intro t e he
  have htypes := CompilationUnit.types_of_prepare hprepare
  obtain ⟨nodes, generated, -, hp, -⟩ := CompilationUnit.prepare_eq_ok hprepare
  have hregister := mapError_eq_ok.1 hcommit
  rw [hp] at hregister htypes
  rcases get?_of_registered hregister he with hold | ⟨g, hg, -, rfl⟩
  · exact hreg t e hold
  · refine CompilationUnit.plain_qualifiedName hprepare (htypes ▸ ?_)
    exact List.mem_map_of_mem (List.mem_map_of_mem hg)

theorem Registry.Compiled.plainNames {reg : Registry} (h : reg.Compiled) : reg.PlainNames := by
  induction h with
  | empty => exact fun t e he ↦ by cases he
  | commit _ _ _ hprepare hcommit _ ih => exact ih.commit hprepare hcommit

theorem CompilationUnit.get?_of_mem_importedEntries
    (h : (u.prepare env registry occasion).result = .ok p) {e : Entry}
    (he : e ∈ p.importedEntries) : ∃ t, registry.get? t = some e := by
  obtain ⟨-, nodes, generated, hnodes, -, rfl⟩ := prepare_iff.1 h
  rw [importedEntries_prepared] at he
  obtain ⟨n, hn, hd⟩ := mem_importedEntries.1 he
  have hsound := (WalkContext.closure_sound hnodes).2 n hn
  unfold Node.Sound at hsound
  rw [hd] at hsound
  exact ⟨_, hsound.1⟩

/-- Whatever a prepared file refers to has a plain name, if the registered types have. -/
theorem CompilationUnit.plain_references (hregistry : registry.PlainNames)
    (h : (u.prepare env registry occasion).result = .ok p)
    {d : Descriptor} (hd : d ∈ p.file.types) :
    ∀ name ∈ d.references, Plain name.toList := by
  intro name hname
  obtain ⟨-, hself, -⟩ := selfContained_of_prepare h
  rcases hself.named d hd name hname with ⟨d', hd', rfl⟩ | ⟨e, he, rfl⟩
  · exact plain_qualifiedName h hd'
  · obtain ⟨t, ht⟩ := get?_of_mem_importedEntries h he
    exact hregistry t e ht

/-- The names in a prepared file are plain, but for those of defaults and of imported files. -/
theorem CompilationUnit.plainNames_of_prepare (hregistry : registry.PlainNames)
    (h : (u.prepare env registry occasion).result = .ok p)
    (himports : ∀ i ∈ p.file.imports, Unquoted i.toList)
    (hdefaults : ∀ d ∈ p.file.types, ∀ name ∈ d.defaultNames, Plain name.toList) :
    p.file.PlainNames where
  package package hpackage := by
    obtain ⟨hcheck, nodes, generated, -, -, rfl⟩ := prepare_iff.1 h
    exact plain_package hcheck hpackage
  imports := himports
  types d hd := by
    have hreferences := plain_references hregistry h hd
    have hdefaults := hdefaults d hd
    obtain ⟨resolve, ref, info, built, -, hbuilt, rfl, -⟩ := exists_build_of_prepare h hd
    exact plainNames_of_build hbuilt hreferences hdefaults

end

/-- A file that some unit compiles to, with whatever is registered under plain names. -/
def SchemaFile.Compiled (f : SchemaFile) : Prop :=
  ∃ (u : CompilationUnit) (env : Environment) (registry : Registry) (occasion : Nat) (p : Prepared),
    registry.PlainNames ∧ (u.prepare env registry occasion).result = .ok p ∧ p.file = f

theorem SchemaFile.Compiled.of_prepare (u : CompilationUnit) (env : Environment) (occasion : Nat)
    {registry : Registry} {f : SchemaFile} (hregistry : registry.PlainNames)
    (h : (u.prepare env registry occasion).result.toOption.map (·.file) = some f) : f.Compiled := by
  obtain ⟨p, hp, hfile⟩ := Option.map_eq_some_iff.1 h
  exact ⟨u, env, registry, occasion, p, hregistry, toOption_eq_some.1 hp, hfile⟩

/-- The texts that are copied into a file without a check do not end what they stand in. -/
structure SchemaFile.Quiet (f : SchemaFile) : Prop where
  docs : ∀ d ∈ f.allDocs, StaysInside d.toList
  generator : ∀ g, f.generator = some g → '\n' ∉ f.name.toList ∧ '\n' ∉ g.toList
  imports : ∀ i ∈ f.imports, Unquoted i.toList
  defaults : ∀ d ∈ f.types, ∀ name ∈ d.defaultNames, Plain name.toList

theorem SchemaFile.Compiled.tokens_render {f : SchemaFile} (hf : f.Compiled) (hquiet : f.Quiet) :
    tokens f.render.toList = tokens f.bare.render.toList := by
  obtain ⟨u, env, registry, occasion, p, hregistry, hprepare, rfl⟩ := hf
  exact (u.plainNames_of_prepare hregistry hprepare hquiet.imports hquiet.defaults).tokens_render
    hquiet.docs hquiet.generator

/-- **Comments do not leak into the schema.** Two compiled files that differ only in documentation
and in what produced them have the same tokens, as long as no text that is copied into them ends the
comment or the literal that it stands in. -/
theorem SchemaFile.Compiled.tokens_eq_of_bare_eq {f g : SchemaFile} (hf : f.Compiled)
    (hg : g.Compiled) (hquietf : f.Quiet) (hquietg : g.Quiet) (h : f.bare = g.bare) :
    tokens f.render.toList = tokens g.render.toList := by
  rw [hf.tokens_render hquietf, hg.tokens_render hquietg, h]

deriving instance DecidableEq for MessageType, Descriptor, SchemaFile

namespace Garden

def colour : TypeId := ⟨"garden::Colour"⟩

def plant : TypeId := ⟨"garden::Plant"⟩

/-- Plants have a colour and a label, with or without documentation. -/
def environment (docs memberDocs : Option String) : Environment :=
  [{ type := colour, path := colour.name
     kind := .enum [{ name := "Green", number := 0 }] },
    { TypeInfo.storing plant
        [({ name := "colour", kind := .field (.enum (.of colour) false), getter := ·
            number := some 1, default := some (.text "Green") }),
          ({ name := "label", kind := .field (.optional (.scalar .string)), getter := ·
             number := some 2, default := some (.text "*/ \"none\""), docs := memberDocs })]
      with docs }]

/-- Colours are in a file of their own. -/
def colours : Registry :=
  CompilationUnit.registry { fileName := "colour.proto", requested := [.of colour] }
    (environment none none)

def unit (generator : Option String) : CompilationUnit :=
  { fileName := "plant.proto", package := some "garden", generator, requested := [.of plant] }

/-- The file of plants. -/
def file (docs memberDocs generator : Option String) : SchemaFile where
  name := "plant.proto"
  package := some "garden"
  generator := generator
  imports := ["colour.proto"]
  types :=
    [.message
      { name := "Plant", qualifiedName := "garden.Plant", oneofs := [], docs
        fields :=
          [{ number := 1, name := "colour", wireType := .varint, cardinality := .optional
             type := .enum "Colour", mapKey := none, default := some (.enum "GREEN" 0)
             presence := false, packed := false, oneof := none, docs := none },
            { number := 2, name := "label", wireType := .lengthDelimited
              cardinality := .optional, type := .scalar .string, mapKey := none
              default := some (.string "*/ \"none\""), presence := true, packed := false
              oneof := none, docs := memberDocs }] }]

/-- Texts that open comments and literals but end none. -/
def docs : String := "Say \"plant\" /* or // weed.\n\n; optional"

def memberDocs : String := "It's '*' /"

def generator : String := "gen /*"

def annotated : SchemaFile := file (some docs) (some memberDocs) (some generator)

def bare : SchemaFile := file none none none

end Garden

/-- The label is a literal, whatever is in it, and the rest stands in comments. -/
theorem Garden.tokens_eq_of_bare_eq_annotated : annotated.Compiled ∧ bare.Compiled ∧
    annotated.bare = bare.bare ∧ annotated.render ≠ bare.render ∧
    tokens annotated.render.toList = tokens bare.render.toList := by
  have hcolours : colours.PlainNames := (CompilationUnit.compiled_registry _ _).plainNames
  have hannotated : annotated.Compiled := by
    refine .of_prepare (unit (some generator))
      (environment (some docs) (some memberDocs)) 1 hcolours ?_
    decide +kernel
  have hbare : bare.Compiled := by
    refine .of_prepare (unit none) (environment none none) 1 hcolours ?_
    decide +kernel
  refine ⟨hannotated, hbare, rfl, by decide +kernel,
    hannotated.tokens_eq_of_bare_eq hbare ?_ ?_ rfl⟩
  · exact {
      docs := by decide +kernel
      generator := by
        rintro g ⟨⟩
        decide
      imports := by decide
      defaults := by decide }
  · exact {
      docs := by decide +kernel
      generator := by
        rintro g ⟨⟩
      imports := by decide
      defaults := by decide }

namespace Gossip

def mood : TypeId := ⟨"demo::Mood"⟩

def environment (docs : Option String) : Environment :=
  [{ type := mood, path := mood.name, docs, kind := .enum [{ name := "Calm", number := 0 }] }]

def unit : CompilationUnit :=
  { fileName := "mood.proto", package := some "demo", requested := [.of mood] }

/-- The file of moods. -/
def file (docs : Option String) : SchemaFile where
  name := "mood.proto"
  package := some "demo"
  generator := none
  imports := []
  types := [.enum ⟨"Mood", "demo.Mood", [⟨"CALM", 0, none⟩], docs⟩]

/-- A text that ends the comment in which it stands, and begins another one. -/
def leak : String := "Ends */ message Leak \x7b\x7d /* early."

end Gossip

/-- Documentation that ends its comment puts a message of its own into the file. -/
theorem Gossip.tokens_ne : (file (some leak)).Compiled ∧ (file none).Compiled ∧
    (file (some leak)).bare = (file none).bare ∧
    tokens (file (some leak)).render.toList ≠ tokens (file none).render.toList := by
  have hempty : Registry.empty.PlainNames := Registry.Compiled.empty.plainNames
  refine ⟨?_, ?_, rfl, by decide +kernel⟩
  · refine .of_prepare unit (environment (some leak)) 0 hempty ?_
    decide +kernel
  · refine .of_prepare unit (environment none) 0 hempty ?_
    decide +kernel

end ProtoSchema
