import Mathlib.Data.List.TakeWhile
import ProtoSchema.Manifest.LibraryPath
import ProtoSchema.Proofs.Derive.Word

/-!
# Libraries are reached under their keys

Packages see a library under the key of the dependency that brings it, with underscores for hyphens,
and a library of the family also inside the facade. Which words the path has is told here by
relations, one for each of the rules, and the rules are ordered: a key for the library goes before
one for the facade, and one table of dependencies before the next.

Looking a path up puts the key into a text and reads the text as a path. So it depends on the words
whether there is a path at all: each must be a step that can be read back, and a key with a hyphen
is not one. A text that starts with such a key is read up to the hyphen, which is left over.
-/

set_option autoImplicit false

namespace ProtoSchema.Manifest

open Derive Text

/-! ## Names -/

/-- Whether a text starts like a word and consists of certain characters. -/
def isName (continues : Char → Bool) (s : String) : Bool :=
  s.toList.head?.any startsWord && s.toList.all continues

/-- Whether a text is a word. -/
def isWord (s : String) : Bool := isName continuesWord s

/-- Whether a text may be the name of a package. -/
def isPackageName (s : String) : Bool := isName standsInName s

/-- A word that may be a step of a path. -/
structure IsPathWord (s : String) : Prop where
  word : isWord s = true
  step : IsStep s

/-- What a library is called in code when its dependency has the key. -/
def exposedName (key : String) : String :=
  String.ofList (key.toList.map fun c ↦ if c = '-' then '_' else c)

/-- The absolute path of some words. -/
def pathCode (words : List String) : Code := words.flatMap fun word ↦ [":", ":", word]

variable {key name library package table : String}

theorem isName_iff {continues : Char → Bool} : isName continues key = true ↔
    ∃ c rest, key.toList = c :: rest ∧ startsWord c = true ∧
      ∀ d ∈ c :: rest, continues d = true := by
  unfold isName
  cases key.toList with
  | nil => exact iff_of_false (by simp) (by rintro ⟨_, _, h, -⟩; cases h)
  | cons c rest =>
    rw [Bool.and_eq_true, List.all_eq_true]
    constructor
    · rintro ⟨hstart, hall⟩
      exact ⟨c, rest, rfl, hstart, hall⟩
    · rintro ⟨_, _, ⟨⟩, hstart, hall⟩
      exact ⟨hstart, hall⟩

theorem exposedName_of_isWord (h : isWord key = true) : exposedName key = key := by
  have hall := List.all_eq_true.1 (Bool.and_eq_true_iff.1 h).2
  have hkept : key.toList.map (fun c ↦ if c = '-' then '_' else c) = key.toList.map id := by
    refine List.map_congr_left fun c hc ↦ if_neg ?_
    rintro rfl
    exact absurd (hall '-' hc) (by decide)
  rw [exposedName, hkept, List.map_id, String.ofList_toList]

/-! ## Tokens of names

A name starts with a word, and a hyphen ends it. The two colons of an absolute path stand in front
of the first word and change nothing about it. -/

theorem leads_of_isWord (h : isWord name = true) : Leads name.toList [.word name] [] := by
  obtain ⟨c, rest, hname, hc, hall⟩ := isName_iff.1 h
  have hrest : ∀ d ∈ rest, continuesWord d = true := fun d hd ↦
    hall d (List.mem_cons_of_mem c hd)
  have hend : Leads (rest.dropWhile continuesWord) [] [] := by
    rw [List.dropWhile_eq_nil_iff.2 hrest]
    exact .nil
  have hleads := Leads.cons
    (nextLexemes_word hc fun d hd ↦ standsInName_of_continuesWord (hall d hd)) hend
  rwa [List.takeWhile_eq_self_iff.2 hrest, ← hname, String.ofList_toList] at hleads

theorem leads_of_not_isWord (h : isPackageName name = true) (hword : ¬isWord name = true) :
    ∃ word joined left, Leads name.toList [.word word, .mark '-' joined] left := by
  obtain ⟨c, rest, hname, hc, hall⟩ := isName_iff.1 h
  cases hleft : rest.dropWhile continuesWord with
  | nil =>
    have hrest := List.dropWhile_eq_nil_iff.1 hleft
    exact absurd (isName_iff.2 ⟨c, rest, hname, hc,
      List.forall_mem_cons.2 ⟨continuesWord_of_startsWord hc, hrest⟩⟩) hword
  | cons d left =>
    have hstop : continuesWord d = false := by
      have hstop := List.head?_dropWhile_not continuesWord rest
      rwa [hleft] at hstop
    have hbehind : ∀ d' ∈ d :: left, standsInName d' = true := by
      intro d' hd'
      rw [← hleft] at hd'
      exact hall d' (List.mem_cons_of_mem c ((List.dropWhile_sublist _).mem hd'))
    have hhyphen : d = '-' := by
      rcases Bool.or_eq_true_iff.1 (hbehind d List.mem_cons_self) with hd | hd
      · rw [hstop] at hd
        cases hd
      · exact eq_of_beq hd
    subst hhyphen
    have hend : Leads (rest.dropWhile continuesWord) [.mark '-' (startsMark left)] left := by
      rw [hleft]
      exact .cons (nextLexemes_hyphen hbehind) .nil
    rw [hname]
    exact ⟨_, _, left, .cons (nextLexemes_word hc hall) hend⟩

theorem leads_absolute {ts : List Token} {left : List Char} (h : isPackageName name = true)
    (hname : Leads name.toList ts left) :
    Leads (withoutOrderMark ("::" ++ name).toList)
      (.mark ':' true :: .mark ':' false :: ts) left := by
  obtain ⟨c, rest, htext, hc, -⟩ := isName_iff.1 h
  have hmark : nextLexemes (':' :: c :: rest) = some ([.token (.mark ':' false)], c :: rest) := by
    rw [← startsMark_eq_false (continuesWord_of_startsWord hc) rest]
    rfl
  rw [String.toList_append, htext]
  rw [htext] at hname
  exact .cons rfl (.cons hmark hname)

theorem isPackageName_of_isWord (h : isWord name = true) : isPackageName name = true := by
  obtain ⟨c, rest, hname, hc, hall⟩ := isName_iff.1 h
  exact isName_iff.2 ⟨c, rest, hname, hc, fun d hd ↦ standsInName_of_continuesWord (hall d hd)⟩

theorem tokens?_of_isWord (h : isWord name = true) : tokens? name = some [.word name] := by
  have hleads := leads_of_isWord h
  obtain ⟨c, rest, hname, -, hall⟩ := isName_iff.1 h
  have htext : withoutOrderMark name.toList = name.toList := by
    rw [hname, withoutOrderMark_of_continuesWord (hall c List.mem_cons_self)]
  rw [← htext] at hleads
  refine hleads.tokens?_eq_some ?_
  rw [htext, hname]
  exact Nat.le_add_left 1 rest.length

theorem tokens?_absolute (h : isWord name = true) :
    tokens? ("::" ++ name) = some [.mark ':' true, .mark ':' false, .word name] := by
  refine (leads_absolute (isPackageName_of_isWord h) (leads_of_isWord h)).tokens?_eq_some ?_
  obtain ⟨c, rest, htext, -⟩ := isName_iff.1 h
  rw [String.toList_append, htext]
  exact Nat.le_add_left 3 rest.length

/-! ## Paths that are read back

Nothing may be left over behind a path, so a hyphen in it is an error, and so is a word that is
reserved. -/

section

variable {α : Type} {text : String} {tokens written : List Token} (read : Readers → Scan α)

theorem codeOf_of_ok {a : α} (htokens : tokens? text = some tokens)
    (hread : Scan.whole (read (readersFor tokens)) tokens = .ok (a, written)) :
    codeOf text read = .ok (Token.codeAll written) := by
  rw [codeOf, htokens]
  dsimp only
  rw [hread]

theorem codeOf_of_error {e : DeriveError} (htokens : tokens? text = some tokens)
    (hread : Scan.whole (read (readersFor tokens)) tokens = .error e) :
    codeOf text read = .error (.invalidPath text) := by
  rw [codeOf, htokens]
  dsimp only
  rw [hread]

theorem codeOf_of_none (htokens : tokens? text = none) :
    codeOf text read = .error (.invalidPath text) := by
  rw [codeOf, htokens]

end

theorem absolute_of_isPathWord (h : IsPathWord key) : absolute key = .ok [":", ":", key] := by
  unfold absolute
  rw [codeOf_of_ok _ (tokens?_absolute h.word)
    (Scan.whole_of_ok ((wordPath_word .nil).trans (if_pos h.step)))]
  rfl

theorem absolute_of_not_isPathWord (hname : isPackageName key = true) (h : ¬IsPathWord key) :
    absolute key = .error (.invalidPath ("::" ++ key)) := by
  by_cases hword : isWord key = true
  · have hstep : ¬IsStep key := fun hstep ↦ h ⟨hword, hstep⟩
    exact codeOf_of_error _ (tokens?_absolute hword)
      (Scan.whole_of_error ((wordPath_word .nil).trans (if_neg hstep)))
  · obtain ⟨word, joined, left, hleads⟩ := leads_of_not_isWord hname hword
    rcases (leads_absolute hname hleads).tokens?_eq with hnone | ⟨more, hsome⟩
    · exact codeOf_of_none _ hnone
    · have hends : EndsStep (.mark '-' joined :: more) := .hyphen joined more
      by_cases hstep : IsStep word
      · exact codeOf_of_error _ hsome
          (Scan.whole_of_ahead ((wordPath_word hends).trans (if_pos hstep)))
      · exact codeOf_of_error _ hsome
          (Scan.whole_of_error ((wordPath_word hends).trans (if_neg hstep)))

theorem part_of_isPathWord (h : IsPathWord name) : part name = .ok [name] := by
  unfold part
  rw [codeOf_of_ok _ (tokens?_of_isWord h.word)
    (Scan.whole_of_ok ((segment_word .nil).trans (if_pos h.step)))]
  rfl

theorem part_of_not_isPathWord (hname : ∀ d ∈ name.toList, continuesWord d = true)
    (h : ¬IsPathWord name) : part name = .error (.invalidPath name) := by
  by_cases hword : isWord name = true
  · have hstep : ¬IsStep name := fun hstep ↦ h ⟨hword, hstep⟩
    exact codeOf_of_error _ (tokens?_of_isWord hword)
      (Scan.whole_of_error ((segment_word .nil).trans (if_neg hstep)))
  cases htext : name.toList with
  | nil =>
    have hleads : Leads (withoutOrderMark name.toList) [] [] := by
      rw [htext]
      exact .nil
    obtain ⟨e, he⟩ := segment_nil
    exact codeOf_of_error _ (hleads.tokens?_eq_some (Nat.zero_le _)) (Scan.whole_of_error he)
  | cons c rest =>
    rw [htext] at hname
    have hc : startsWord c = false := Bool.eq_false_iff.2 fun hc ↦
      hword (isName_iff.2 ⟨c, rest, htext, hc, hname⟩)
    have hcontinues := hname c List.mem_cons_self
    have hhyphen : c ≠ '-' := by
      rintro rfl
      exact absurd hcontinues (by decide)
    have hmark : withoutOrderMark name.toList = c :: rest := by
      rw [htext, withoutOrderMark_of_continuesWord hcontinues]
    rcases nextLexemes_of_not_startsWord hc hhyphen
      fun d hd ↦ standsInName_of_continuesWord (hname d hd) with hnext | ⟨spelling, left, hnext⟩
    · exact codeOf_of_none _ (tokens?_eq_none hmark hnext)
    · have hleads : Leads (withoutOrderMark name.toList) [.literal spelling] left := by
        rw [hmark]
        exact .cons hnext .nil
      rcases hleads.tokens?_eq with hnone | ⟨more, hsome⟩
      · exact codeOf_of_none _ hnone
      · obtain ⟨e, he⟩ := segment_literal spelling
        exact codeOf_of_error _ hsome (Scan.whole_of_error he)

/-! ## Keys of libraries

The relations have the rules in the order in which they are tried. A rule applies where those before
it do not. -/

/-- The key under which a table of dependencies has a package: the name of the package, or else the
first key whose entry is renamed from it. -/
inductive KeyOf (dependencies : Table) (package : String) : String → Prop
  | own {item : Item} (h : (package, item) ∈ dependencies) : KeyOf dependencies package package
  | renamed {before after : Table} {key : String} {item : Item}
      (hown : ∀ e ∈ dependencies, e.1 ≠ package)
      (hdependencies : dependencies = before ++ (key, item) :: after)
      (hfirst : ∀ e ∈ before, e.2.textAt? "package" ≠ some package)
      (hitem : item.textAt? "package" = some package) : KeyOf dependencies package key

/-- The words of the path to a library that a table of dependencies offers: the key of the library,
or else, in the family, the key of the facade and the name that the library has there. -/
inductive Offers (dependencies : Table) (library : String) : List String → Prop
  | direct {key : String} (h : KeyOf dependencies library key) : Offers dependencies library [key]
  | bundled {key name : String} (hdirect : ∀ k, ¬KeyOf dependencies library k)
      (hfamily : library = familyStart ++ name) (h : KeyOf dependencies facadeName key) :
      Offers dependencies library [key, name]

/-- The words of the path to a library: what the first table of dependencies offers that offers
anything, or else the name of the library. -/
inductive Reaches (manifest : Table) (library : String) : List String → Prop
  | offered {before after : List String} {table : String} {item : Item} {words : List String}
      (htables : dependencyTables = before ++ table :: after)
      (hbefore : ∀ t ∈ before, ∀ i, manifest.lookup t = some i →
        ∀ words, ¬Offers i.entries library words)
      (hitem : manifest.lookup table = some item) (h : Offers item.entries library words) :
      Reaches manifest library words
  | unlisted (h : ∀ t ∈ dependencyTables, ∀ i, manifest.lookup t = some i →
      ∀ words, ¬Offers i.entries library words) : Reaches manifest library [library]

variable {dependencies manifest : Table} {words : List String}

theorem KeyOf.mem (h : KeyOf dependencies package key) : ∃ item, (key, item) ∈ dependencies := by
  cases h with
  | own h => exact ⟨_, h⟩
  | renamed _ hdependencies _ _ =>
    rw [hdependencies]
    exact ⟨_, List.mem_append_right _ List.mem_cons_self⟩

theorem dependencyKey?_eq_some :
    dependencyKey? dependencies package = some key ↔ KeyOf dependencies package key := by
  unfold dependencyKey?
  by_cases hown : ∃ e ∈ dependencies, e.1 = package
  · have hany : (dependencies.any (·.1 == package)) = true := by
      simpa only [List.any_eq_true, beq_iff_eq] using hown
    rw [if_pos hany, Option.some_inj]
    obtain ⟨⟨_, item⟩, hmem, rfl⟩ := hown
    constructor
    · rintro rfl
      exact .own hmem
    · rintro (_ | ⟨hother, -, -, -⟩)
      · rfl
      · exact absurd rfl (hother _ hmem)
  · have hany : ¬(dependencies.any (·.1 == package)) = true := by
      simpa only [List.any_eq_true, beq_iff_eq] using hown
    have hother : ∀ e ∈ dependencies, e.1 ≠ package := fun e he heq ↦ hown ⟨e, he, heq⟩
    rw [if_neg hany, Option.map_eq_some_iff]
    constructor
    · rintro ⟨⟨key, item⟩, hfind, rfl⟩
      obtain ⟨hitem, before, after, hdependencies, hfirst⟩ := List.find?_eq_some_iff_append.1 hfind
      refine .renamed hother hdependencies (fun e he heq ↦ ?_) (eq_of_beq hitem)
      simpa [heq] using hfirst e he
    · rintro (hmem | ⟨-, hdependencies, hfirst, hitem⟩)
      · exact absurd rfl (hother _ hmem)
      · refine ⟨_, List.find?_eq_some_iff_append.2
          ⟨beq_iff_eq.2 hitem, _, _, hdependencies, fun e he ↦ ?_⟩, rfl⟩
        simpa using hfirst e he

theorem dependencyKey?_eq_none :
    dependencyKey? dependencies package = none ↔ ∀ key, ¬KeyOf dependencies package key := by
  rw [Option.eq_none_iff_forall_ne_some]
  exact forall_congr' fun key ↦ not_congr dependencyKey?_eq_some

theorem familyName?_eq_some : familyName? library = some name ↔ library = familyStart ++ name := by
  have hdrop : ∀ rest, (familyStart.toList ++ rest).drop familyStart.length = rest := fun _ ↦ rfl
  rw [familyName?, Option.ite_none_right_eq_some, List.isPrefixOf_iff_prefix, Option.some_inj]
  constructor
  · rintro ⟨⟨rest, hrest⟩, rfl⟩
    rw [← String.toList_inj, String.toList_append, String.toList_ofList, ← hrest, hdrop]
  · rintro rfl
    rw [String.toList_append, hdrop, String.ofList_toList]
    exact ⟨List.prefix_append _ _, rfl⟩

/-! ## Looking paths up

Tables are looked up by their keys. One that is written inline is there for the package, and yet
none of its entries is seen. -/

/-- What looking a path of certain words up comes to: the path of the words as they are called in
code, unless one of them is no step of a path. -/
structure PathOf (words : List String) (found : Except DeriveError Code) : Prop where
  exposed : (∀ w ∈ words, IsPathWord w) → found = .ok (pathCode (words.map exposedName))
  refused : ¬(∀ w ∈ words, IsPathWord w) → ∃ text, found = .error (.invalidPath text)

theorem pathOf_absolute (hkey : isPackageName key = true) : PathOf [key] (absolute key) where
  exposed h := by
    have hpath := h key List.mem_cons_self
    rw [absolute_of_isPathWord hpath, List.map_singleton, exposedName_of_isWord hpath.word]
    rfl
  refused h := by
    refine ⟨_, absolute_of_not_isPathWord hkey fun hpath ↦ h ?_⟩
    exact List.forall_mem_singleton.2 hpath

theorem pathOf_bundled (hkey : isPackageName key = true)
    (hname : ∀ d ∈ name.toList, continuesWord d = true) :
    PathOf [key, name] (do return (← absolute key) ++ [":", ":"] ++ (← part name)) where
  exposed h := by
    obtain ⟨hkey, hrest⟩ := List.forall_mem_cons.1 h
    have hname := hrest name List.mem_cons_self
    rw [absolute_of_isPathWord hkey, part_of_isPathWord hname, List.map_cons, List.map_singleton,
      exposedName_of_isWord hkey.word, exposedName_of_isWord hname.word]
    rfl
  refused h := by
    by_cases hpath : IsPathWord key
    · have hlast : ¬IsPathWord name := fun hname ↦
        h (List.forall_mem_cons.2 ⟨hpath, List.forall_mem_singleton.2 hname⟩)
      refine ⟨name, ?_⟩
      rw [absolute_of_isPathWord hpath, ok_bind, part_of_not_isPathWord hname hlast, error_bind]
    · refine ⟨"::" ++ key, ?_⟩
      rw [absolute_of_not_isPathWord hkey hpath, error_bind]

theorem pathIn_of_offers (hkeys : ∀ e ∈ dependencies, isPackageName e.1 = true)
    (hlibrary : isWord library = true) (h : Offers dependencies library words) :
    ∃ found, pathIn dependencies library = some found ∧ PathOf words found := by
  unfold pathIn
  cases h with
  | direct h =>
    obtain ⟨item, hmem⟩ := h.mem
    have hkey := hkeys _ hmem
    rw [dependencyKey?_eq_some.2 h]
    exact ⟨_, rfl, pathOf_absolute hkey⟩
  | @bundled key name hdirect hfamily h =>
    obtain ⟨item, hmem⟩ := h.mem
    have hkey := hkeys _ hmem
    have hname : ∀ d ∈ name.toList, continuesWord d = true := by
      -- What the name of the library goes on with goes on like a word.
      have hall := List.all_eq_true.1 (Bool.and_eq_true_iff.1 hlibrary).2
      rw [hfamily, String.toList_append] at hall
      exact fun d hd ↦ hall d (List.mem_append_right _ hd)
    rw [dependencyKey?_eq_none.2 hdirect, familyName?_eq_some.2 hfamily,
      dependencyKey?_eq_some.2 h]
    exact ⟨_, rfl, pathOf_bundled hkey hname⟩

theorem pathIn_eq_none (h : ∀ words, ¬Offers dependencies library words) :
    pathIn dependencies library = none := by
  have hdirect : ∀ k, ¬KeyOf dependencies library k := fun k hk ↦ h [k] (.direct hk)
  unfold pathIn
  rw [dependencyKey?_eq_none.2 hdirect]
  dsimp only
  split
  · next name facade hfamily hfacade =>
    refine absurd (.bundled hdirect ?_ ?_) (h [facade, name])
    · exact familyName?_eq_some.1 hfamily
    · exact dependencyKey?_eq_some.1 hfacade
  · rfl

theorem not_offers_nil : ¬Offers [] library words := by
  have hkey : ∀ package key, ¬KeyOf [] package key := by
    intro package key h
    obtain ⟨item, hmem⟩ := h.mem
    exact List.not_mem_nil hmem
  rintro (h | ⟨-, -, h⟩)
  · exact hkey _ _ h
  · exact hkey _ _ h

/-- Whether a table is written inline. -/
def Item.isInline : Item → Bool
  | inlineTable _ => true
  | _ => false

/-- The path to a library by the table of dependencies under a key. -/
def pathUnder (manifest : Table) (library table : String) : Option (Except DeriveError Code) :=
  match manifest.lookup table with
  | some (.table dependencies) => pathIn dependencies library
  | _ => none

theorem libraryPath_eq (manifest : Table) (library : String) :
    libraryPath manifest library =
      (dependencyTables.findSome? (pathUnder manifest library)).getD (absolute library) :=
  rfl

/-- What is written inline is not looked into; if it offers nothing, nothing is missed. -/
theorem pathUnder_of_lookup {i : Item} (hitem : manifest.lookup table = some i)
    (hinline : i.isInline = true → ∀ words, ¬Offers i.entries library words) :
    pathUnder manifest library table = pathIn i.entries library := by
  unfold pathUnder
  rw [hitem]
  cases i with
  | table entries => rfl
  | inlineTable entries => exact (pathIn_eq_none (hinline rfl)).symm
  | text _ | other | tables => exact (pathIn_eq_none fun _ ↦ not_offers_nil).symm

theorem pathUnder_eq_none
    (h : ∀ i, manifest.lookup table = some i → ∀ words, ¬Offers i.entries library words) :
    pathUnder manifest library table = none := by
  cases hitem : manifest.lookup table with
  | none =>
    unfold pathUnder
    rw [hitem]
  | some i =>
    rw [pathUnder_of_lookup hitem fun _ ↦ h i hitem]
    exact pathIn_eq_none (h i hitem)

theorem exists_reaches (manifest : Table) (library : String) :
    ∃ words, Reaches manifest library words := by
  classical
  cases hfind : dependencyTables.find? fun t ↦
      decide (∃ i words, manifest.lookup t = some i ∧ Offers i.entries library words) with
  | none =>
    refine ⟨[library], .unlisted fun t ht i hi words h ↦ ?_⟩
    exact List.find?_eq_none.1 hfind t ht (decide_eq_true ⟨i, words, hi, h⟩)
  | some t =>
    obtain ⟨hoffers, before, after, htables, hbefore⟩ := List.find?_eq_some_iff_append.1 hfind
    obtain ⟨i, words, hi, h⟩ := of_decide_eq_true hoffers
    refine ⟨words, .offered htables (fun t' ht' i' hi' words' h' ↦ ?_) hi h⟩
    have hnone := hbefore t' ht'
    rw [Bool.not_eq_true', decide_eq_false_iff_not] at hnone
    exact hnone ⟨i', words', hi', h'⟩

theorem pathOf_libraryPath
    (hkeys : ∀ t ∈ dependencyTables, ∀ i ∈ manifest.lookup t,
      ∀ e ∈ i.entries, isPackageName e.1 = true)
    (hinline : ∀ t ∈ dependencyTables, ∀ i ∈ manifest.lookup t,
      i.isInline = true → ∀ words, ¬Offers i.entries library words)
    (hlibrary : isWord library = true) (h : Reaches manifest library words) :
    PathOf words (libraryPath manifest library) := by
  rw [libraryPath_eq]
  cases h with
  | unlisted h =>
    have hnone : dependencyTables.findSome? (pathUnder manifest library) = none :=
      List.findSome?_eq_none_iff.2 fun t ht ↦ pathUnder_eq_none (h t ht)
    rw [hnone]
    exact pathOf_absolute (isPackageName_of_isWord hlibrary)
  | @offered before after table i words htables hbefore hitem h =>
    have hmem : table ∈ dependencyTables := by
      rw [htables]
      exact List.mem_append_right _ List.mem_cons_self
    -- Tables in front of the one that offers the library offer nothing, so they are passed over.
    have hskipped : before.findSome? (pathUnder manifest library) = none :=
      List.findSome?_eq_none_iff.2 fun t ht ↦ pathUnder_eq_none (hbefore t ht)
    obtain ⟨found, hfound, hpath⟩ := pathIn_of_offers (hkeys table hmem i hitem) hlibrary h
    rw [htables, List.findSome?_append, hskipped, Option.none_or, List.findSome?_cons,
      pathUnder_of_lookup hitem (hinline table hmem i hitem), hfound]
    exact hpath

/-- **Libraries are reached under their keys.** If dependencies stand under names of packages and
a table of them that is written inline does not offer the library, there is a path to it, and
looking it up gives that path unless one of its words is no step of a path: then a text is taken for
a path that is none. -/
theorem libraryPath_exposed (manifest : Table) (library : String)
    (hkeys : ∀ t ∈ dependencyTables, ∀ i ∈ manifest.lookup t,
      ∀ e ∈ i.entries, isPackageName e.1 = true)
    (hinline : ∀ t ∈ dependencyTables, ∀ i ∈ manifest.lookup t,
      i.isInline = true → ∀ words, ¬Offers i.entries library words)
    (hlibrary : isWord library = true) :
    (∃ words, Reaches manifest library words) ∧
      ∀ words, Reaches manifest library words → PathOf words (libraryPath manifest library) :=
  ⟨exists_reaches manifest library, fun _ ↦ pathOf_libraryPath hkeys hinline hlibrary⟩

namespace Depot

/-- A package that has the facade under another name, and only for its tests. -/
def bundled : Table :=
  [("dependencies", .table [("serde", .text "1.0")]),
    ("dev-dependencies", .table [("wire", .inlineTable [("package", .text "vc_wire")])])]

/-- A package that has a library under a name with a hyphen. -/
def hyphenated : Table :=
  [("dependencies", .table [("my-proto",
    .inlineTable [("package", .text "vc_proto"), ("version", .text "0.0.1")])])]

end Depot

/-- The library is reached inside the facade. -/
theorem Depot.libraryPath_exposed_bundled :
    Reaches bundled "vc_proto" ["wire", "proto"] ∧
      libraryPath bundled "vc_proto" = .ok [":", ":", "wire", ":", ":", "proto"] := by
  have htables : dependencyTables = ["dependencies"] ++ "dev-dependencies" :: [] := rfl
  have hother : ∀ words, ¬Offers [("serde", .text "1.0")] "vc_proto" words := by
    rintro words (h | ⟨-, -, h⟩) <;> cases dependencyKey?_eq_some.2 h
  have hfacade : Offers [("wire", .inlineTable [("package", .text "vc_wire")])] "vc_proto"
      ["wire", "proto"] :=
    .bundled (dependencyKey?_eq_none.1 rfl) (by decide) (dependencyKey?_eq_some.1 rfl)
  have hreaches : Reaches bundled "vc_proto" ["wire", "proto"] := by
    refine .offered htables (List.forall_mem_singleton.2 ?_) rfl hfacade
    rintro i ⟨⟩
    exact hother
  have hwords : ∀ w ∈ ["wire", "proto"], IsPathWord w := by
    simp only [List.forall_mem_cons]
    exact ⟨⟨by decide, by decide⟩, ⟨by decide, by decide⟩, by simp⟩
  have hheaded : ∀ t ∈ dependencyTables, ∀ i ∈ bundled.lookup t, i.isInline = false := by decide
  obtain ⟨-, hpath⟩ := libraryPath_exposed bundled "vc_proto" (by decide)
    (fun t ht i hi h ↦ absurd h (Bool.eq_false_iff.1 (hheaded t ht i hi))) (by decide)
  refine ⟨hreaches, ((hpath _ hreaches).exposed hwords).trans ?_⟩
  decide +kernel

/-- A key with a hyphen is exposed with an underscore, and looking the library up fails. -/
theorem Depot.not_exposed_hyphenated :
    isPackageName "my-proto" = true ∧ isWord "vc_proto" = true ∧
      Reaches hyphenated "vc_proto" ["my-proto"] ∧
      pathCode (["my-proto"].map exposedName) = [":", ":", "my_proto"] ∧
      ∃ text, libraryPath hyphenated "vc_proto" = .error (.invalidPath text) := by
  have htables : dependencyTables = [] ++ "dependencies" :: ["dev-dependencies"] := rfl
  have hreaches : Reaches hyphenated "vc_proto" ["my-proto"] :=
    .offered htables (by simp) rfl (.direct (dependencyKey?_eq_some.1 rfl))
  have hheaded : ∀ t ∈ dependencyTables, ∀ i ∈ hyphenated.lookup t, i.isInline = false := by
    decide
  have hpath := pathOf_libraryPath (by decide)
    (fun t ht i hi h ↦ absurd h (Bool.eq_false_iff.1 (hheaded t ht i hi))) (by decide) hreaches
  refine ⟨by decide, by decide, hreaches, by decide +kernel, hpath.refused fun h ↦ ?_⟩
  exact absurd (h "my-proto" List.mem_cons_self).word (by decide)

end ProtoSchema.Manifest
