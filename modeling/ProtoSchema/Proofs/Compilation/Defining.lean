import ProtoSchema.Proofs.Compilation.Session
import ProtoSchema.Proofs.Registry.Growth

/-!
# Files that define a name

A unit generates a type only if no other file defines it; a type that another file defines is
imported. So a name should be defined by one file only, the one that its entry records. What the
unit sees, though, is the registry at the time when it is prepared. When it is committed, another
file may have come to define the type, and as long as the descriptors are equal the commit succeeds
all the same: the file is registered with the type among those it defines, while the entry still
records the first file.

A commit that finds a type of its unit registered for another file, or for none, is disputed. The
files of a registry define every name once exactly if no commit that succeeded was disputed. A unit
that is compiled in one step is never disputed, since nothing happens between its two halves.
-/

set_option autoImplicit false

namespace ProtoSchema

/-- Every name that a registered file defines is defined by no other one, and the file is recorded
with the name. -/
structure Registry.DefinesOnce (r : Registry) : Prop where
  unique : ∀ f ∈ r.files, ∀ g ∈ r.files, ∀ d ∈ f.types, ∀ d' ∈ g.types,
    d.qualifiedName = d'.qualifiedName → f = g
  recorded : ∀ f ∈ r.files, ∀ d ∈ f.types, ∃ e, r.named? d.qualifiedName = some e ∧
    e.file = some f.name

/-- What a unit generates is free or registered for the unit's own file. -/
def Prepared.Undisputed (p : Prepared) (r : Registry) : Prop :=
  ∀ reg ∈ p.registrations, ∀ e, r.get? reg.type = some e → e.file = some p.file.name

/-! ## The files of a registry

A file is entered with the names of its types, which are bound by then. Names are defined once if
each file defines names that are recorded as its own. -/

namespace Registry

variable {r r' : Registry} {file : SchemaFile} {files : List SchemaFile} {p : Prepared}

/-- Files have names of their own, and the names they define are bound. -/
structure FilesNamed (r : Registry) : Prop where
  distinct : (r.files.map (·.name)).Nodup
  bound : ∀ f ∈ r.files, ∀ d ∈ f.types, ∃ e, r.named? d.qualifiedName = some e

theorem FilesNamed.definesOnce (h : r.FilesNamed)
    (hrecorded : ∀ f ∈ r.files, ∀ d ∈ f.types, ∃ e, r.named? d.qualifiedName = some e ∧
      e.file = some f.name) : r.DefinesOnce := by
  refine ⟨fun f hf g hg d hd d' hd' hname ↦ ?_, hrecorded⟩
  obtain ⟨e, he, hfile⟩ := hrecorded f hf d hd
  obtain ⟨e', he', hfile'⟩ := hrecorded g hg d' hd'
  obtain rfl := Option.some.inj (he.symm.trans (hname ▸ he'))
  exact List.inj_on_of_nodup_map h.distinct hf hg (Option.some.inj (hfile.symm.trans hfile'))

theorem DefinesOnce.of_grows (hfiles : r.FilesNamed) (hgrows : r.Grows r')
    (hmem : ∀ f ∈ r.files, f ∈ r'.files) (h : r'.DefinesOnce) : r.DefinesOnce := by
  refine hfiles.definesOnce fun f hf d hd ↦ ?_
  obtain ⟨e, he⟩ := hfiles.bound f hf d hd
  obtain ⟨e', he', hrecorded⟩ := h.recorded f (hmem f hf) d hd
  obtain rfl := Option.some.inj ((hgrows.named? he).symm.trans he')
  exact ⟨e, he, hrecorded⟩

section

variable (hgrows : r.Grows r') (heq : r'.files = r.files)
include hgrows heq

theorem FilesNamed.of_files_eq (h : r.FilesNamed) : r'.FilesNamed := by
  refine ⟨heq ▸ h.distinct, fun f hf d hd ↦ ?_⟩
  exact (h.bound f (heq ▸ hf) d hd).imp fun e he ↦ hgrows.named? he

theorem definesOnce_iff_of_files_eq (h : r.FilesNamed) : r'.DefinesOnce ↔ r.DefinesOnce := by
  constructor
  · exact .of_grows h hgrows fun f hf ↦ heq ▸ hf
  · intro honce
    refine (h.of_files_eq hgrows heq).definesOnce fun f hf d hd ↦ ?_
    obtain ⟨e, he, hrecorded⟩ := honce.recorded f (heq ▸ hf) d hd
    exact ⟨e, hgrows.named? he, hrecorded⟩

end

/-- The files after a file is registered are those before and, itself or as an equal one, the new
one. -/
theorem mem_of_filesWith (h : r.filesWith file = some files) :
    (∀ f ∈ r.files, f ∈ files) ∧ (∀ f ∈ files, f ∈ r.files ∨ f = file) ∧
      ∃ f ∈ files, f = file ∨ (f == file) = true := by
  rcases filesWith_eq_some.1 h with ⟨existing, hfile, hsame, rfl⟩ | ⟨-, rfl⟩
  · exact ⟨fun f hf ↦ hf, fun f hf ↦ .inl hf,
      existing, List.mem_of_find?_eq_some hfile, .inr hsame⟩
  · exact ⟨fun f hf ↦ List.mem_append_left _ hf,
      fun f hf ↦ (List.mem_append.1 hf).imp_right List.mem_singleton.1,
      file, List.mem_append_right _ (List.mem_singleton_self file), .inl rfl⟩

theorem nodup_of_filesWith (hdistinct : (r.files.map (·.name)).Nodup)
    (h : r.filesWith file = some files) : (files.map (·.name)).Nodup := by
  rcases filesWith_eq_some.1 h with ⟨_, -, -, rfl⟩ | ⟨hfree, rfl⟩
  · exact hdistinct
  · rw [List.map_append, List.nodup_append]
    refine ⟨hdistinct, List.nodup_singleton _, ?_⟩
    rintro name hname name' hname' rfl
    obtain ⟨f, hf, rfl⟩ := List.mem_map.1 hname
    rw [List.map_singleton, List.mem_singleton] at hname'
    have hne := List.find?_eq_none.1 hfree f hf
    exact hne (beq_iff_eq.2 hname')

/-! ## Committing

What a commit adds to the files is the file of the unit, or nothing, when an equal one is there
already. The names in it are bound, to entries for this file or, in a disputed commit, to what was
there before. -/

section

variable (hcommit : (p.commit r).result = .ok r')
include hcommit

theorem Bijective.grows_of_commit (hr : r.Bijective) : r.Grows r' :=
  (hr.namesBound.registerSchema (mapError_eq_ok.1 hcommit)).1

theorem mem_files_of_commit :
    (∀ f ∈ r.files, f ∈ r'.files) ∧ ∀ f ∈ r'.files, f ∈ r.files ∨ f = p.file := by
  obtain ⟨-, files, hwith, rfl⟩ := registerSchema_eq_ok.1 (mapError_eq_ok.1 hcommit)
  exact ⟨(mem_of_filesWith hwith).1, (mem_of_filesWith hwith).2.1⟩

theorem exists_file_of_commit (htypes : p.file.types = p.registrations.map (·.descriptor)) :
    ∃ f ∈ r'.files, f.name = p.file.name ∧
      ∀ reg ∈ p.registrations, ∃ d ∈ f.types, d.qualifiedName = reg.name := by
  obtain ⟨-, files, hwith, rfl⟩ := registerSchema_eq_ok.1 (mapError_eq_ok.1 hcommit)
  obtain ⟨-, -, f, hf, hsame⟩ := mem_of_filesWith hwith
  have hnames : f.name = p.file.name ∧
      f.types.map (·.qualifiedName) = p.file.types.map (·.qualifiedName) := by
    rcases hsame with rfl | hsame
    · exact ⟨rfl, rfl⟩
    · exact SchemaFile.names_eq_of_beq hsame
  refine ⟨f, hf, hnames.1, fun reg hreg ↦ List.mem_map.1 ?_⟩
  rw [hnames.2, htypes, List.map_map]
  exact List.mem_map.2 ⟨reg, hreg, rfl⟩

end

section

variable (hr : r.Bijective) (hfiles : r.FilesNamed)
  (htypes : p.file.types = p.registrations.map (·.descriptor))
  (hdistinct : (p.registrations.map (·.type)).Nodup) (hcommit : (p.commit r).result = .ok r')
include hr hdistinct hcommit

theorem exists_named_of_commit {reg : Registration} (hreg : reg ∈ p.registrations) :
    ∃ e, r'.named? reg.name = some e ∧
      (r.get? reg.type = some e ∨ r.get? reg.type = none ∧ e.file = some p.file.name) := by
  have hr' := hr.commit hdistinct hcommit
  have hnamed : ∀ e, r'.get? reg.type = some e → e.name = reg.name → r'.named? reg.name = some e :=
    fun e he hname ↦ (hr'.coherent.named _ _).2 ⟨_, he, hname⟩
  rcases get?_of_mem (mapError_eq_ok.1 hcommit) hreg with
    ⟨e, hold, he, hd⟩ | ⟨hfree, last, hlast, he⟩
  · exact ⟨e, hnamed e he (Descriptor.qualifiedName_eq_of_beq hd), .inl hold⟩
  · obtain ⟨hmem, ht⟩ := Registration.mem_of_last? hlast
    obtain rfl : last = reg := List.inj_on_of_nodup_map hdistinct hmem hreg ht
    exact ⟨_, hnamed _ he rfl, .inr ⟨hfree, rfl⟩⟩

/-- Where names are defined once after a commit, the commit was undisputed. -/
theorem DefinesOnce.undisputed (htypes : p.file.types = p.registrations.map (·.descriptor))
    (h : r'.DefinesOnce) : p.Undisputed r := by
  intro reg hreg e he
  obtain ⟨f, hf, hname, hdefines⟩ := exists_file_of_commit hcommit htypes
  obtain ⟨d, hd, hdname⟩ := hdefines reg hreg
  obtain ⟨e', he', hrecorded⟩ := h.recorded f hf d hd
  obtain ⟨e'', he'', hbound⟩ := exists_named_of_commit hr hdistinct hcommit hreg
  obtain rfl := Option.some.inj ((hdname ▸ he').symm.trans he'')
  rcases hbound with hbound | ⟨hfree, -⟩
  · rw [Option.some.inj (he.symm.trans hbound), hrecorded, hname]
  · rw [hfree] at he
    cases he

include hfiles htypes

theorem FilesNamed.commit : r'.FilesNamed := by
  constructor
  · obtain ⟨-, files, hwith, rfl⟩ := registerSchema_eq_ok.1 (mapError_eq_ok.1 hcommit)
    exact nodup_of_filesWith hfiles.distinct hwith
  · intro f hf d hd
    rcases (mem_files_of_commit hcommit).2 f hf with hf | rfl
    · exact (hfiles.bound f hf d hd).imp fun e he ↦ (hr.grows_of_commit hcommit).named? he
    · rw [htypes] at hd
      obtain ⟨reg, hreg, rfl⟩ := List.mem_map.1 hd
      exact (exists_named_of_commit hr hdistinct hcommit hreg).imp fun e he ↦ he.1

theorem DefinesOnce.commit (h : r.DefinesOnce) (hundisputed : p.Undisputed r) :
    r'.DefinesOnce := by
  refine (hfiles.commit hr htypes hdistinct hcommit).definesOnce fun f hf d hd ↦ ?_
  rcases (mem_files_of_commit hcommit).2 f hf with hf | rfl
  · obtain ⟨e, he, hrecorded⟩ := h.recorded f hf d hd
    exact ⟨e, (hr.grows_of_commit hcommit).named? he, hrecorded⟩
  · rw [htypes] at hd
    obtain ⟨reg, hreg, rfl⟩ := List.mem_map.1 hd
    obtain ⟨e, he, hbound | ⟨-, hfile⟩⟩ := exists_named_of_commit hr hdistinct hcommit hreg
    · exact ⟨e, he, hundisputed reg hreg e hbound⟩
    · exact ⟨e, he, hfile⟩

/-- **Committing keeps names defined once** exactly if the commit is undisputed. -/
theorem definesOnce_commit_iff : r'.DefinesOnce ↔ r.DefinesOnce ∧ p.Undisputed r := by
  constructor
  · intro h
    exact ⟨h.of_grows hfiles (hr.grows_of_commit hcommit) (mem_files_of_commit hcommit).1,
      h.undisputed hr hdistinct hcommit htypes⟩
  · rintro ⟨h, hundisputed⟩
    exact h.commit hr hfiles htypes hdistinct hcommit hundisputed

end

end Registry

/-! ## Units at work on one registry

Only a commit that succeeds enters a file, whether on its own or right behind preparing. In between
nothing happens in the second case, so it is the commits of waiting units that may be disputed. -/

section

variable {u : CompilationUnit} {env : Environment} {r : Registry} {occasion : Nat} {p : Prepared}

theorem CompilationUnit.types_of_prepare (h : (u.prepare env r occasion).result = .ok p) :
    p.file.types = p.registrations.map (·.descriptor) := by
  obtain ⟨-, nodes, generated, -, -, rfl⟩ := prepare_iff.1 h
  exact types_prepared

/-- A unit is undisputed as long as the registry is what it was prepared against. -/
theorem CompilationUnit.undisputed_of_prepare (h : (u.prepare env r occasion).result = .ok p) :
    p.Undisputed r := by
  intro reg hreg e he
  obtain ⟨-, nodes, generated, hclosure, hgenerated, rfl⟩ := prepare_iff.1 h
  obtain ⟨g, hg, rfl⟩ := List.mem_map.1 hreg
  obtain ⟨hn, hd, hsound, -⟩ := generated_sound hclosure hgenerated g hg
  have hfree := (WalkContext.adds_of_closure hclosure g.1 hn).free hd
  exact WalkContext.importable?_eq_none.1 hfree e (hsound.type ▸ he)

end

theorem Registry.files_of_register {r r' : Registry} {reg : Registration}
    (h : (r.register reg).result = .ok r') : r'.files = r.files := by
  rcases register_eq_ok h with ⟨-, rfl⟩ | ⟨-, rfl⟩ <;> rfl

namespace Session

/-- The action, if it commits a unit and succeeds, is undisputed. -/
def Fair (s : Session) (action : Action) : Prop :=
  ∀ index p r, action = .commit index → s.prepared[index]? = some p →
    (p.commit s.registry).result = .ok r → p.Undisputed s.registry

/-- Every commit that succeeded was undisputed. -/
def Undisputed (actions : List Action) : Prop :=
  ∀ before action after, actions = before ++ action :: after → (run before).Fair action

theorem fair_of_ne_commit {s : Session} {action : Action} (h : ∀ index, action ≠ .commit index) :
    s.Fair action :=
  fun index _ _ heq ↦ absurd heq (h index)

theorem fair_commit_of_none {s : Session} {index : Nat} (h : s.prepared[index]? = none) :
    s.Fair (.commit index) := by
  rintro index' p r ⟨⟩ hp
  cases h.symm.trans hp

theorem fair_commit_iff {s : Session} {index : Nat} {p : Prepared}
    (h : s.prepared[index]? = some p) :
    s.Fair (.commit index) ↔
      ∀ r, (p.commit s.registry).result = .ok r → p.Undisputed s.registry := by
  constructor
  · intro hfair r hr
    exact hfair index p r rfl h hr
  · rintro hundisputed index' p' r ⟨⟩ hp hr
    obtain rfl := Option.some.inj (h.symm.trans hp)
    exact hundisputed r hr

/-- What holds of the files and of the prepared units in whatever state a session is. -/
structure Filed (s : Session) : Prop where
  sound : s.Sound
  files : s.registry.FilesNamed
  prepared : ∀ p ∈ s.prepared, p.file.types = p.registrations.map (·.descriptor)

variable {s s' : Session}

theorem Filed.of_outcome {action : Action} (h : s.Filed) (hs : s.Outcome action s') : s'.Filed := by
  refine ⟨h.sound.of_outcome hs, ?_, ?_⟩
  · cases hs with
    | failed | prepared | refused => exact h.files
    | registered hr =>
      have hgrows := (h.sound.registry.namesBound.register hr).1
      exact h.files.of_files_eq hgrows (Registry.files_of_register hr)
    | committed hp hr =>
      have hmem := List.mem_of_getElem? hp
      exact h.files.commit h.sound.registry (h.prepared _ hmem) (h.sound.prepared _ hmem) hr
    | compiled hprepare hcommit =>
      exact h.files.commit h.sound.registry (CompilationUnit.types_of_prepare hprepare)
        (CompilationUnit.nodup_registrations hprepare) hcommit
  · cases hs with
    | failed | registered | compiled => exact h.prepared
    | prepared hp =>
      exact List.forall_mem_append.2
        ⟨h.prepared, List.forall_mem_singleton.2 (CompilationUnit.types_of_prepare hp)⟩
    | refused | committed => exact fun p hp ↦ h.prepared p (List.mem_of_mem_eraseIdx hp)

theorem filed_run (actions : List Action) : (run actions).Filed :=
  foldl_induction (fun _ _ _ _ ↦ Filed.of_outcome)
    ⟨sound_run [], ⟨List.nodup_nil, fun _ hf ↦ absurd hf List.not_mem_nil⟩,
      fun _ hp ↦ absurd hp List.not_mem_nil⟩

theorem Filed.definesOnce_commit_iff (h : s.Filed) (index : Nat) :
    (s.step (.commit index)).registry.DefinesOnce ↔
      s.registry.DefinesOnce ∧ s.Fair (.commit index) := by
  unfold step
  dsimp only
  cases hp : s.prepared[index]? with
  | none => exact (and_iff_left (fair_commit_of_none hp)).symm
  | some p =>
    dsimp only
    rw [fair_commit_iff hp]
    have hmem := List.mem_of_getElem? hp
    cases hr : (p.commit s.registry).result with
    | error e =>
      rw [keep, hr]
      refine (and_iff_left fun r hr' ↦ ?_).symm
      cases hr'
    | ok r =>
      rw [keep, hr]
      refine (Registry.definesOnce_commit_iff h.sound.registry h.files (h.prepared p hmem)
        (h.sound.prepared p hmem) hr).trans (and_congr_right fun _ ↦ ?_)
      exact ⟨fun hundisputed _ _ ↦ hundisputed, fun hfair ↦ hfair r rfl⟩

/-- An action keeps names defined once exactly if it is no disputed commit that succeeds. -/
theorem Filed.definesOnce_step_iff (h : s.Filed) (action : Action) :
    (s.step action).registry.DefinesOnce ↔ s.registry.DefinesOnce ∧ s.Fair action := by
  cases action with
  | register reg =>
    rw [and_iff_left (fair_of_ne_commit fun _ ↦ by rintro ⟨⟩)]
    unfold step
    dsimp only
    rcases keep_eq s.registry (s.registry.register reg) with heq | hr
    · rw [heq]
    · have hgrows := (h.sound.registry.namesBound.register hr).1
      exact Registry.definesOnce_iff_of_files_eq hgrows (Registry.files_of_register hr) h.files
  | prepare u env other occasion =>
    rw [and_iff_left (fair_of_ne_commit fun _ ↦ by rintro ⟨⟩)]
    unfold step
    dsimp only
    split <;> rfl
  | commit index => exact h.definesOnce_commit_iff index
  | compile u env occasion =>
    rw [and_iff_left (fair_of_ne_commit fun _ ↦ by rintro ⟨⟩)]
    generalize hs : s.step (.compile u env occasion) = s'
    have houtcome := s.outcome_step (.compile u env occasion)
    rw [hs] at houtcome
    cases houtcome with
    | failed => rfl
    | compiled hprepare hcommit =>
      -- The registry is still the one that the unit was prepared against.
      refine (Registry.definesOnce_commit_iff h.sound.registry h.files
        (CompilationUnit.types_of_prepare hprepare) (CompilationUnit.nodup_registrations hprepare)
        hcommit).trans (and_iff_left ?_)
      exact CompilationUnit.undisputed_of_prepare hprepare

theorem run_append_singleton (actions : List Action) (action : Action) :
    run (actions ++ [action]) = (run actions).step action := by
  rw [run, List.foldl_append, List.foldl_cons, List.foldl_nil, run]

theorem undisputed_append_singleton {actions : List Action} {action : Action} :
    Undisputed (actions ++ [action]) ↔ Undisputed actions ∧ (run actions).Fair action := by
  constructor
  · intro h
    refine ⟨fun before a after heq ↦ h before a (after ++ [action]) ?_, h actions action [] rfl⟩
    rw [heq, List.append_assoc, List.cons_append]
  · rintro ⟨hactions, haction⟩ before a after heq
    rcases List.eq_nil_or_concat after with rfl | ⟨after, last, rfl⟩
    · obtain ⟨rfl, hlast⟩ := List.append_inj' heq rfl
      cases hlast
      exact haction
    · rw [List.concat_eq_append, ← List.cons_append, ← List.append_assoc] at heq
      exact hactions before a after (List.append_inj' heq rfl).1

/-- **Names are defined once exactly if no commit was disputed.** Whatever was done with an empty
registry, every name that a registered file defines is defined by no other one and recorded as its,
unless some unit was committed when a type that it generates had come to be registered for another
file. -/
theorem definesOnce_run_iff (actions : List Action) :
    (run actions).registry.DefinesOnce ↔ Undisputed actions := by
  induction actions using List.reverseRecOn with
  | nil =>
    have hnone : Undisputed [] := fun before a after heq ↦ by simp at heq
    refine iff_of_true ?_ hnone
    exact ⟨fun _ hf ↦ absurd hf List.not_mem_nil, fun _ hf ↦ absurd hf List.not_mem_nil⟩
  | append_singleton actions action ih =>
    rw [run_append_singleton, (filed_run actions).definesOnce_step_iff, ih,
      undisputed_append_singleton]

end Session

namespace Twins

def mood : TypeId := ⟨"demo::Mood"⟩

def environment : Environment :=
  [{ type := mood, path := mood.name, kind := .enum [{ name := "Calm", number := 0 }] }]

/-- A unit that generates the enum into a file. -/
def unit (fileName : String) : CompilationUnit :=
  { fileName, package := some "demo", requested := [.of mood] }

/-- Two units are prepared while the enum is free, and then both are committed. -/
def actions : List Session.Action :=
  [.prepare (unit "a.proto") environment none 0, .prepare (unit "b.proto") environment none 1,
    .commit 0, .commit 0]

end Twins

/-- Both files are registered, and both define the name. -/
theorem Twins.not_definesOnce : ¬(Session.run actions).registry.DefinesOnce := by
  have hdefines : ∀ name ∈ ["a.proto", "b.proto"],
      ∃ f ∈ (Session.run actions).registry.files, f.name = name ∧
        ∃ d ∈ f.types, d.qualifiedName = "demo.Mood" := by
    decide +kernel
  intro h
  obtain ⟨f, hf, hfname, d, hd, hdname⟩ := hdefines "a.proto" (.head _)
  obtain ⟨g, hg, hgname, d', hd', hdname'⟩ := hdefines "b.proto" (.tail _ (.head _))
  have heq := h.unique f hf g hg d hd d' hd' (hdname.trans hdname'.symm)
  rw [heq, hgname] at hfname
  exact absurd hfname (by decide)

end ProtoSchema
