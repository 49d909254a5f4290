import Mathlib.Data.List.Induction
import ProtoSchema.Proofs.Codec.Storing
import ProtoSchema.Proofs.Compilation.Resolving

/-!
# Prepared files are self-contained

A schema file names the types that its own types refer to, and a reader of the file has to find each
of them in the file itself or in a file that it imports. The two halves of this come from different
places. A field bears the name that the closure gives to the type it refers to, and the closure has
that name from the description of a generated type or from the entry of an imported one; the files
to import are read off the same entries. So a name that is not defined in the file is that of an
entry whose file, if it has one, is imported.

Entries of the unit's own file are never imported, so the file does not import itself.
-/

set_option autoImplicit false

namespace ProtoSchema

/-! ## The files to import

Entries are gone through in their order, and each adds its file to the end of the list. -/

/-- What an entry adds to the files to import. -/
def addFile (fileName : String) (files : List String) (e : Entry) : List String :=
  match e.file with
  | some file => if file != fileName && !files.contains file then files ++ [file] else files
  | none => files

theorem importedFiles_append_singleton (fileName : String) (entries : List Entry) (e : Entry) :
    importedFiles fileName (entries ++ [e]) = addFile fileName (importedFiles fileName entries) e :=
  List.foldl_concat _ _ _ _

theorem addFile_cases (fileName : String) (files : List String) (e : Entry) :
    (addFile fileName files e = files ∧
        ∀ file, e.file = some file → file ≠ fileName → file ∈ files) ∨
      ∃ file, e.file = some file ∧ file ≠ fileName ∧ file ∉ files ∧
        addFile fileName files e = files ++ [file] := by
  unfold addFile
  cases e.file with
  | none => exact .inl ⟨rfl, fun _ h ↦ by cases h⟩
  | some own =>
    by_cases hadd : own ≠ fileName ∧ own ∉ files
    · refine .inr ⟨own, rfl, hadd.1, hadd.2, if_pos ?_⟩
      simp [hadd.1, hadd.2]
    · refine .inl ⟨if_neg (by simpa using hadd), ?_⟩
      rintro file ⟨⟩ hne
      exact Classical.not_not.1 fun hmem ↦ hadd ⟨hne, hmem⟩

/-- The files of the entries are imported, the unit's own file apart. -/
theorem mem_importedFiles {fileName file : String} {entries : List Entry} :
    file ∈ importedFiles fileName entries ↔
      file ≠ fileName ∧ ∃ e ∈ entries, e.file = some file := by
  induction entries using List.reverseRecOn with
  | nil => simp [importedFiles]
  | append_singleton entries e ih =>
    have hmem : (∃ e' ∈ entries ++ [e], e'.file = some file) ↔
        (∃ e' ∈ entries, e'.file = some file) ∨ e.file = some file := by
      simp [or_and_right, exists_or]
    rw [importedFiles_append_singleton, hmem, and_or_left, ← ih]
    rcases addFile_cases fileName (importedFiles fileName entries) e with
      ⟨hsame, hthere⟩ | ⟨own, hown, hne, -, hadd⟩
    · rw [hsame]
      constructor
      · exact .inl
      · rintro (h | ⟨hfile, he⟩)
        · exact h
        · exact hthere file he hfile
    · rw [hadd, hown, List.mem_append, List.mem_singleton, Option.some.injEq]
      constructor
      · rintro (h | rfl)
        · exact .inl h
        · exact .inr ⟨hne, rfl⟩
      · rintro (h | ⟨-, rfl⟩)
        · exact .inl h
        · exact .inr rfl

theorem nodup_importedFiles (fileName : String) (entries : List Entry) :
    (importedFiles fileName entries).Nodup := by
  induction entries using List.reverseRecOn with
  | nil => exact List.nodup_nil
  | append_singleton entries e ih =>
    rw [importedFiles_append_singleton]
    rcases addFile_cases fileName (importedFiles fileName entries) e with
      ⟨hsame, -⟩ | ⟨own, -, -, hmem, hadd⟩
    · rwa [hsame]
    · rw [hadd]
      exact List.concat_eq_append ▸ ih.concat hmem

/-! ## Names

A name in a description is one that the resolver gave, so it is a name that the schema has for a
type of the closure. -/

/-- The qualified names that a description refers to. -/
def Descriptor.references : Descriptor → List String
  | message m => m.fields.filterMap (·.type.target?)
  | enum _ => []

theorem Registration.Sound.names {r : Registration} {env : Environment} {resolve : Resolver}
    {n : Node} (h : r.Sound env resolve n) {name : String}
    (hname : name ∈ r.descriptor.references) :
    ∃ t sort, resolve.Names t name sort := by
  rw [h.described] at hname
  cases hr : r.marshaller with
  | enum e =>
    rw [hr] at hname
    cases hname
  | message m =>
    rw [hr, Marshaller.descriptor, Descriptor.references, List.mem_filterMap] at hname
    obtain ⟨f, hf, htarget⟩ := hname
    obtain ⟨info, message, -, hmade⟩ := h.made m hr
    rw [← hmade.fields] at hf
    obtain ⟨p, hp, rfl⟩ := List.mem_map.1 hf
    have hrefers := hmade.refersTo p hp
    unfold Plan.RefersTo at hrefers
    split at hrefers
    · rw [hrefers] at htarget
      cases htarget
    · obtain ⟨name', htype, hnames⟩ := hrefers
      rw [htype] at htarget
      cases htarget
      exact ⟨_, _, hnames⟩
    · obtain ⟨name', htype, hnames⟩ := hrefers
      rw [htype] at htarget
      cases htarget
      exact ⟨_, _, hnames⟩

/-! ## Prepared units

The schema lists the generated types and behind them the imported ones. What is said of the file is
read off this list. -/

/-- An entry is that of a reached type: what was generated for the type under its name, or what the
registry has for it. -/
inductive SchemaEntry.Of (registry : Registry) (n : Node) : SchemaEntry → Prop
  | generated {r : Registration} {generator : Option String} (hd : n.decision = .generate)
      (ht : r.type = n.ref.type) (hname : r.name = n.qualifiedName) :
      Of registry n (.generated r n.ref generator)
  | imported {e : Entry} (hd : n.decision = .imported e) (he : registry.get? n.ref.type = some e)
      (hname : e.name = n.qualifiedName) : Of registry n (.imported e)

namespace Prepared

/-- The entries that a prepared unit imports. -/
def importedEntries (p : Prepared) : List Entry :=
  p.entries.filterMap fun
    | .generated .. => none
    | .imported e => some e

/-- Whatever the types of a file refer to is in the file or imported by it, and the file imports
nothing else. -/
structure SelfContained (p : Prepared) : Prop where
  named : ∀ d ∈ p.file.types, ∀ name ∈ d.references,
    (∃ d' ∈ p.file.types, d'.qualifiedName = name) ∨ ∃ e ∈ p.importedEntries, e.name = name
  imports : ∀ file, file ∈ p.file.imports ↔ ∃ e ∈ p.importedEntries, e.file = some file
  distinct : p.file.imports.Nodup
  other : p.file.name ∉ p.file.imports

/-- The entries are those of the generated types, with the descriptions of the file in its order,
and behind them those of the imported types, both in the order in which the types were reached. -/
structure Lists (p : Prepared) (registry : Registry) (nodes : List Node) : Prop where
  entries : List.Forall₂ (SchemaEntry.Of registry)
    (nodes.filter Node.isGenerated ++ nodes.filter fun n ↦ !n.isGenerated) p.entries
  types : p.file.types = (p.entries.filter fun s ↦ !s.isImported).map (·.descriptor)

end Prepared

variable {u : CompilationUnit} {env : Environment} {registry : Registry} {nodes : List Node}
  {generated : List (Node × Registration)}

theorem mem_importedEntries {e : Entry} :
    e ∈ importedEntries nodes ↔ ∃ n ∈ nodes, n.decision = .imported e := by
  unfold importedEntries
  rw [List.mem_filterMap]
  refine exists_congr fun n ↦ and_congr_right fun _ ↦ ?_
  cases n.decision with
  | generate => simp
  | imported e' => simp

namespace CompilationUnit

theorem importedEntries_prepared :
    (u.prepared nodes generated).importedEntries = importedEntries nodes := by
  have hgenerated : generated.filterMap (fun _ ↦ (none : Option Entry)) = [] := by simp
  rw [Prepared.importedEntries, prepared, List.filterMap_append, List.filterMap_map,
    List.filterMap_map]
  exact (congrArg (· ++ _) hgenerated).trans (List.filterMap_some)

theorem named_of_names
    (hclosure : ((u.context env registry).closure u.requested).result = .ok nodes)
    (hmap : generated.map (·.1) = nodes.filter Node.isGenerated)
    (hname : ∀ g ∈ generated, g.2.name = g.1.qualifiedName) {t : TypeId} {name : String}
    {sort : TypeSort} (h : (resolverOf nodes).Names t name sort) :
    (∃ g ∈ generated, g.2.name = name) ∨ ∃ e ∈ importedEntries nodes, e.name = name := by
  obtain ⟨n, hn, -, hresolved⟩ := resolverOf_eq_some h
  cases hresolved
  have hadds := WalkContext.adds_of_closure hclosure n hn
  cases hadds with
  | imported he => exact .inr ⟨_, mem_importedEntries.2 ⟨_, hn, rfl⟩, rfl⟩
  | generated hfree hinfo =>
    have hmem := List.mem_filter.2 ⟨hn, Node.isGenerated_iff.2 rfl⟩
    rw [← hmap] at hmem
    obtain ⟨g, hg, hnode⟩ := List.mem_map.1 hmem
    exact .inl ⟨g, hg, (hname g hg).trans (congrArg Node.qualifiedName hnode)⟩

theorem selfContained_prepared
    (hclosure : ((u.context env registry).closure u.requested).result = .ok nodes)
    (hmap : generated.map (·.1) = nodes.filter Node.isGenerated)
    (hsound : ∀ g ∈ generated, g.2.Sound env (resolverOf nodes) g.1)
    (hname : ∀ g ∈ generated, g.2.name = g.1.qualifiedName) :
    (u.prepared nodes generated).SelfContained where
  named d hd name href := by
    obtain ⟨g, hg, rfl⟩ := List.mem_map.1 hd
    obtain ⟨t, sort, hnames⟩ := (hsound g hg).names href
    rw [importedEntries_prepared]
    refine (named_of_names hclosure hmap hname hnames).imp_left ?_
    rintro ⟨g', hg', hg'name⟩
    exact ⟨g'.2.descriptor, List.mem_map_of_mem hg', hg'name⟩
  imports file := by
    rw [importedEntries_prepared]
    refine mem_importedFiles.trans ⟨And.right, fun h ↦ ⟨?_, h⟩⟩
    -- What the unit's own file registered is generated again.
    rintro rfl
    obtain ⟨e, he, hfile⟩ := h
    obtain ⟨n, hn, hd⟩ := mem_importedEntries.1 he
    have hadds := WalkContext.adds_of_closure hclosure n hn
    cases hadds with
    | imported himport =>
      cases hd
      exact (WalkContext.importable?_eq_some.1 himport).2 hfile
    | generated => cases hd
  distinct := nodup_importedFiles _ _
  other h := (mem_importedFiles.1 h).1 rfl

theorem forall₂_importedEntries (h : ∀ n ∈ nodes, (u.context env registry).Adds n) :
    List.Forall₂ (SchemaEntry.Of registry) (nodes.filter fun n ↦ !n.isGenerated)
      ((importedEntries nodes).map .imported) := by
  induction nodes with
  | nil => exact .nil
  | cons n rest ih =>
    rw [List.forall_mem_cons] at h
    have hrest := ih h.2
    cases h.1 with
    | imported he => exact .cons (.imported rfl (WalkContext.importable?_eq_some.1 he).1 rfl) hrest
    | generated => exact hrest

theorem lists_prepared
    (hclosure : ((u.context env registry).closure u.requested).result = .ok nodes)
    (hmap : generated.map (·.1) = nodes.filter Node.isGenerated)
    (hsound : ∀ g ∈ generated, g.2.Sound env (resolverOf nodes) g.1)
    (hname : ∀ g ∈ generated, g.2.name = g.1.qualifiedName) :
    (u.prepared nodes generated).Lists registry nodes where
  entries := by
    refine List.rel_append ?_ (forall₂_importedEntries (WalkContext.adds_of_closure hclosure))
    rw [← hmap, List.forall₂_map_left_iff, List.forall₂_map_right_iff, List.forall₂_same]
    intro g hg
    have hnode := List.mem_map_of_mem (f := fun g : Node × Registration ↦ g.1) hg
    rw [hmap] at hnode
    exact .generated (Node.isGenerated_iff.1 (List.mem_filter.1 hnode).2) (hsound g hg).type
      (hname g hg)
  types := by
    have hgenerated : ∀ s ∈ generated.map fun g ↦ SchemaEntry.generated g.2 g.1.ref u.generator,
        (!s.isImported) = true := by
      intro s hs
      obtain ⟨g, -, rfl⟩ := List.mem_map.1 hs
      rfl
    have himported : ∀ s ∈ (importedEntries nodes).map SchemaEntry.imported,
        ¬(!s.isImported) = true := by
      intro s hs
      obtain ⟨e, -, rfl⟩ := List.mem_map.1 hs
      exact Bool.false_ne_true
    rw [prepared, List.filter_append, List.filter_eq_self.2 hgenerated,
      List.filter_eq_nil_iff.2 himported, List.append_nil, List.map_map]
    rfl

end CompilationUnit

/-- **Prepared files are self-contained.** Whatever the registry: a file that a unit prepares bears
the name of the unit, every name that its descriptions refer to is that of a type of the file or of
an imported entry, its imports are the files of the imported entries, each once, and the entries are
those of the closure, the generated ones first. -/
theorem CompilationUnit.selfContained_of_prepare {occasion : Nat} {p : Prepared}
    (h : (u.prepare env registry occasion).result = .ok p) :
    p.file.name = u.fileName ∧ p.SelfContained ∧
      ∃ nodes, ((u.context env registry).closure u.requested).result = .ok nodes ∧
        p.Lists registry nodes := by
  obtain ⟨-, nodes, generated, hnodes, hgenerated, rfl⟩ := prepare_iff.1 h
  have hmap : generated.map (·.1) = nodes.filter Node.isGenerated := by
    refine (generateAll_eq_ok hgenerated).1.trans (List.filter_congr fun n _ ↦ ?_)
    unfold Node.isGenerated
    cases n.decision <;> rfl
  have hsound := generated_sound hnodes hgenerated
  have hregs : ∀ g ∈ generated, g.2.Sound env (resolverOf nodes) g.1 :=
    fun g hg ↦ (hsound g hg).2.2.1
  have hnames : ∀ g ∈ generated, g.2.name = g.1.qualifiedName := fun g hg ↦ (hsound g hg).2.2.2
  exact ⟨rfl, selfContained_prepared hnodes hmap hregs hnames, nodes, hnodes,
    lists_prepared hnodes hmap hregs hnames⟩

namespace Harbour

/-- The flags are registered by a file of their own. -/
def flags : Registry :=
  CompilationUnit.registry { fileName := "flag.proto", requested := [.of flag] } environment

end Harbour

/-- Ships and sailors refer to each other, and to the flags in the other file. -/
theorem Harbour.selfContained_of_prepare_ship : ∃ p,
    (unit.prepare environment flags 1).result = .ok p ∧ p.SelfContained ∧
    p.file.types.map (fun d ↦ (d.qualifiedName, d.references)) =
      [("Ship", ["Sailor", "Flag"]), ("Sailor", ["Ship"])] ∧
    p.file.imports = ["flag.proto"] ∧ p.importedEntries.map (·.name) = ["Flag"] := by
  have hall : (unit.prepare environment flags 1).result.toOption.map (fun p ↦
      (p.file.types.map (fun d ↦ (d.qualifiedName, d.references)), p.file.imports,
        p.importedEntries.map (·.name))) =
      some ([("Ship", ["Sailor", "Flag"]), ("Sailor", ["Ship"])], ["flag.proto"], ["Flag"]) := by
    decide +kernel
  obtain ⟨p, hp, hall⟩ := Option.map_eq_some_iff.1 hall
  have hp := toOption_eq_some.1 hp
  rw [Prod.mk.injEq, Prod.mk.injEq] at hall
  exact ⟨p, hp, (CompilationUnit.selfContained_of_prepare hp).2.1, hall⟩

end ProtoSchema
