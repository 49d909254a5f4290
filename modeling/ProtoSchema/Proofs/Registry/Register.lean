import Mathlib.Data.List.Nodup
import ProtoSchema.Proofs.Result
import ProtoSchema.Proofs.Schema.Equality
import ProtoSchema.Registry.Register

/-!
# What registering changes

Registering binds a registration if its type is free and changes nothing otherwise. A registration
whose type is bound is not refused if the bound descriptor equals its own, and one whose type is
free if its name is free as well. Looking at a file asks this of each of its registrations, with the
registry as it was before the first of them is bound; so the registrations that get bound are those
whose types were free. Of several for one free type the last one stays.
-/

set_option autoImplicit false

namespace ProtoSchema

/-- Whether a marshaller is for messages or for enums. -/
def Marshaller.sort : Marshaller → TypeSort
  | message _ => .message
  | enum _ => .enum

namespace Registration

/-- The last registration for a type. -/
def last? (regs : List Registration) (t : TypeId) : Option Registration :=
  regs.reverse.find? fun reg ↦ decide (reg.type = t)

theorem mem_of_last? {regs : List Registration} {t : TypeId} {reg : Registration}
    (h : last? regs t = some reg) : reg ∈ regs ∧ reg.type = t :=
  ⟨List.mem_reverse.1 (List.mem_of_find?_eq_some h), by simpa using List.find?_some h⟩

theorem exists_last? {regs : List Registration} {reg : Registration} (h : reg ∈ regs) :
    ∃ last, last? regs reg.type = some last := by
  refine Option.isSome_iff_exists.1 (List.find?_isSome.2 ?_)
  exact ⟨reg, List.mem_reverse.2 h, decide_eq_true rfl⟩

end Registration

namespace Registry

/-- Every entry of one registry is an entry of the other. -/
def Extends (r' r : Registry) : Prop := ∀ t e, r.get? t = some e → r'.get? t = some e

theorem Extends.refl (r : Registry) : r.Extends r := fun _ _ h ↦ h

theorem Extends.trans {r r' r'' : Registry} (h' : r''.Extends r') (h : r'.Extends r) :
    r''.Extends r := fun t e he ↦ h' t e (h t e he)

theorem get?_insert (r : Registry) (reg : Registration) (file : Option String) (t : TypeId) :
    (r.insert reg file).get? t = if t = reg.type then some { reg with file } else r.get? t :=
  TypeMap.get?_insert r.entries reg.type t _

theorem lookup_cons_name (name name' : String) (type : TypeId) (names : List (String × TypeId)) :
    ((name, type) :: names).lookup name' =
      if name' = name then some type else names.lookup name' := by
  rw [List.lookup_cons]
  by_cases h : name' = name
  · rw [if_pos h, beq_iff_eq.2 h]
  · rw [if_neg h, beq_eq_false_iff_ne.2 h]

theorem lookup_bindName (name name' : String) (type : TypeId) (names : List (String × TypeId)) :
    (bindName name type names).lookup name' =
      if name' = name then some type else names.lookup name' := by
  induction names with
  | nil => exact lookup_cons_name name name' type []
  | cons p rest ih =>
    obtain ⟨first, t⟩ := p
    rw [bindName, lookup_cons_name first]
    split
    · next hfirst =>
      rw [lookup_cons_name, hfirst]
      split <;> rfl
    · next hfirst =>
      rw [lookup_cons_name, ih]
      by_cases h : name' = first
      · rw [if_pos h, if_neg (h ▸ hfirst), if_pos h]
      · rw [if_neg h, if_neg h]

theorem names_insert (r : Registry) (reg : Registration) (file : Option String) (name : String) :
    (r.insert reg file).names.lookup name =
      if name = reg.name then some reg.type else r.names.lookup name :=
  lookup_bindName reg.name name reg.type r.names

theorem contains_eq_false {r : Registry} {t : TypeId} : r.contains t = false ↔ r.get? t = none := by
  rw [contains, Option.isSome_eq_false_iff, Option.isNone_iff_eq_none]

/-! ## A single registration -/

theorem isNew_eq_true {r : Registry} {reg : Registration} :
    r.isNew reg = .ok true ↔ r.get? reg.type = none ∧ r.named? reg.name = none := by
  unfold isNew
  cases hget : r.get? reg.type with
  | some e =>
    dsimp only
    split <;> simp
  | none =>
    cases hname : r.named? reg.name <;> simp

theorem isNew_eq_false {r : Registry} {reg : Registration} :
    r.isNew reg = .ok false ↔
      ∃ e, r.get? reg.type = some e ∧ (e.descriptor == reg.descriptor) = true := by
  unfold isNew
  cases hget : r.get? reg.type with
  | some e =>
    dsimp only
    split <;> simp [*]
  | none =>
    cases hname : r.named? reg.name <;> simp

theorem isNew_eq_ok {r : Registry} {reg : Registration} {b : Bool} (h : r.isNew reg = .ok b) :
    b = !r.contains reg.type := by
  cases b with
  | true => rw [contains_eq_false.2 (isNew_eq_true.1 h).1, Bool.not_false]
  | false =>
    obtain ⟨e, he, -⟩ := isNew_eq_false.1 h
    rw [contains, he, Option.isSome_some, Bool.not_true]

theorem register_eq_ok {r r' : Registry} {reg : Registration}
    (h : (r.register reg).result = .ok r') :
    r.isNew reg = .ok true ∧ r' = r.insert reg none ∨ r.isNew reg = .ok false ∧ r' = r := by
  obtain ⟨b, hb, h⟩ := Logged.bind_eq_ok.1 h
  cases b with
  | true =>
    obtain ⟨_, -, h⟩ := Logged.bind_eq_ok.1 h
    cases h
    exact .inl ⟨hb, rfl⟩
  | false =>
    cases h
    exact .inr ⟨hb, rfl⟩

/-! ## A file

A file is compared with the one of its name first, then all of its registrations are looked at, and
only then is anything bound. Those registrations are bound whose types were free when they were
looked at. -/

/-- What looking at the registrations of a file makes sure of: none is refused, and those that bear
one name are for one type. -/
structure Accepts (r : Registry) (regs : List Registration) : Prop where
  checked : ∀ reg ∈ regs, r.isNew reg = .ok (!r.contains reg.type)
  type : ∀ reg ∈ regs, ∀ reg' ∈ regs, reg.name = reg'.name → reg.type = reg'.type

/-- The registrations whose types are free. -/
def fresh (r : Registry) (regs : List Registration) : List Registration :=
  regs.filter fun reg ↦ !r.contains reg.type

/-- Binds registrations of a file one after the other. -/
def insertEach (r : Registry) (file : String) (regs : List Registration) : Registry :=
  regs.foldl (fun r reg ↦ r.insert reg (some file)) r

theorem mem_fresh {r : Registry} {regs : List Registration} {reg : Registration} :
    reg ∈ r.fresh regs ↔ reg ∈ regs ∧ r.get? reg.type = none := by
  rw [fresh, List.mem_filter, Bool.not_eq_true', contains_eq_false]

theorem checkAll_eq_ok {r : Registry} {claimed : List (String × TypeId)}
    {regs : List Registration} {fresh : List Bool} (h : r.checkAll claimed regs = .ok fresh) :
    fresh = regs.map (fun reg ↦ !r.contains reg.type) ∧ r.Accepts regs ∧
      ∀ reg ∈ regs, ∀ t, claimed.lookup reg.name = some t → reg.type = t := by
  induction regs generalizing claimed fresh with
  | nil =>
    cases h
    exact ⟨rfl, ⟨by simp, by simp⟩, by simp⟩
  | cons reg rest ih =>
    rw [checkAll] at h
    dsimp only at h
    obtain ⟨hclash, h⟩ := ite_error_eq_ok.1 h
    obtain ⟨b, hb, h⟩ := bind_eq_ok.1 h
    obtain ⟨bs, hbs, h⟩ := bind_eq_ok.1 h
    cases h
    obtain ⟨hfresh, haccepts, hclaimed⟩ := ih hbs
    have hown : ∀ t, claimed.lookup reg.name = some t → reg.type = t := by
      intro t ht
      rw [ht] at hclash
      by_contra hne
      exact hclash (decide_eq_true (Ne.symm hne))
    have hrest : ∀ reg' ∈ rest, reg.name = reg'.name → reg.type = reg'.type := by
      intro reg' hreg' hname
      refine (hclaimed reg' hreg' reg.type ?_).symm
      rw [← hname, List.lookup_cons_self]
    refine ⟨?_, ⟨?_, ?_⟩, ?_⟩
    · rw [List.map_cons, ← hfresh, isNew_eq_ok hb]
    · intro reg' hreg'
      rcases List.mem_cons.1 hreg' with rfl | hreg'
      · rw [hb, isNew_eq_ok hb]
      · exact haccepts.checked reg' hreg'
    · intro reg₁ hreg₁ reg₂ hreg₂ hname
      rcases List.mem_cons.1 hreg₁ with heq₁ | h₁ <;> rcases List.mem_cons.1 hreg₂ with heq₂ | h₂
      · rw [heq₁, heq₂]
      · subst heq₁
        exact hrest reg₂ h₂ hname
      · subst heq₂
        exact (hrest reg₁ h₁ hname.symm).symm
      · exact haccepts.type reg₁ h₁ reg₂ h₂ hname
    · intro reg' hreg' t ht
      rcases List.mem_cons.1 hreg' with rfl | hreg'
      · exact hown t ht
      · by_cases hname : reg'.name = reg.name
        · rw [← hrest reg' hreg' hname.symm]
          exact hown t (hname ▸ ht)
        · refine hclaimed reg' hreg' t ?_
          rwa [lookup_cons_name, if_neg hname]

theorem checkAll_of_accepts {r : Registry} {claimed : List (String × TypeId)}
    {regs : List Registration} (h : r.Accepts regs)
    (hclaimed : ∀ reg ∈ regs, ∀ t, claimed.lookup reg.name = some t → reg.type = t) :
    r.checkAll claimed regs = .ok (regs.map fun reg ↦ !r.contains reg.type) := by
  induction regs generalizing claimed with
  | nil => rfl
  | cons reg rest ih =>
    have hmem : ∀ reg' ∈ rest, reg' ∈ reg :: rest := fun _ ↦ List.mem_cons_of_mem reg
    have haccepts : r.Accepts rest := ⟨fun reg' h' ↦ h.checked reg' (hmem reg' h'),
      fun reg₁ h₁ reg₂ h₂ ↦ h.type reg₁ (hmem reg₁ h₁) reg₂ (hmem reg₂ h₂)⟩
    have hfree : ∀ reg' ∈ rest, ∀ t, ((reg.name, reg.type) :: claimed).lookup reg'.name = some t →
        reg'.type = t := by
      intro reg' h' t ht
      rw [lookup_cons_name] at ht
      split at ht
      · next hname =>
        rw [← Option.some.inj ht]
        exact h.type reg' (hmem reg' h') reg List.mem_cons_self hname
      · exact hclaimed reg' (hmem reg' h') t ht
    have hrest := ih haccepts hfree
    have hclash : ∀ t, claimed.lookup reg.name = some t → ¬decide (t ≠ reg.type) = true := by
      intro t ht hne
      exact of_decide_eq_true hne (hclaimed reg List.mem_cons_self t ht).symm
    rw [checkAll]
    dsimp only
    split
    · next t ht =>
      refine (if_neg (hclash t ht)).trans ?_
      rw [h.checked reg List.mem_cons_self, ok_bind, hrest]
      rfl
    · refine (if_neg Bool.false_ne_true).trans ?_
      rw [h.checked reg List.mem_cons_self, ok_bind, hrest]
      rfl

theorem insertAll_eq (file : String) (r : Registry) (new : Registration → Bool)
    (regs : List Registration) :
    (insertAll file r (regs.zip (regs.map new))).result =
      .ok (r.insertEach file (regs.filter new)) := by
  induction regs generalizing r with
  | nil => rfl
  | cons reg rest ih =>
    rw [List.map_cons, List.zip_cons_cons, insertAll]
    cases hnew : new reg with
    | true =>
      rw [if_pos rfl, Logged.result_bind, noteInsert, Logged.result_note, ok_bind, ih,
        List.filter_cons_of_pos hnew]
      rfl
    | false =>
      rw [if_neg Bool.false_ne_true, ih, List.filter_cons_of_neg (by simp [hnew])]

theorem insertEach_induction {P : Registry → Prop} {r : Registry} {regs : List Registration}
    (file : String) (h : P r)
    (hinsert : ∀ r', P r' → ∀ reg ∈ regs, P (r'.insert reg (some file))) :
    P (r.insertEach file regs) :=
  List.foldlRecOn regs _ h hinsert

theorem files_insertEach (r : Registry) (file : String) (regs : List Registration) :
    (r.insertEach file regs).files = r.files :=
  insertEach_induction (P := fun r' ↦ r'.files = r.files) file rfl fun _ h _ _ ↦ h

/-! ## Files and their types

A file is known by its name, and a second one of the name has to equal it. What is bound to a type
afterwards is what was bound before, or else the last registration of the file for the type. -/

/-- The files after a file is registered: as they were if it is known already, and none if another
one has its name. -/
def filesWith (r : Registry) (file : SchemaFile) : Option (List SchemaFile) :=
  match r.file? file.name with
  | some existing => if existing == file then some r.files else none
  | none => some (r.files ++ [file])

/-- The registry holds another file of the name. Files are compared by `==`. -/
def HoldsOther (r : Registry) (file : SchemaFile) : Prop :=
  ∃ existing, r.file? file.name = some existing ∧ (existing == file) = false

theorem filesWith_eq_some {r : Registry} {file : SchemaFile} {files : List SchemaFile} :
    r.filesWith file = some files ↔
      (∃ existing, r.file? file.name = some existing ∧ (existing == file) = true ∧
        files = r.files) ∨
      r.file? file.name = none ∧ files = r.files ++ [file] := by
  unfold filesWith
  constructor
  · intro h
    split at h
    · next existing hfile =>
      obtain ⟨hsame, h⟩ := Option.ite_none_right_eq_some.1 h
      exact .inl ⟨existing, hfile, hsame, (Option.some.inj h).symm⟩
    · next hfree => exact .inr ⟨hfree, (Option.some.inj h).symm⟩
  · rintro (⟨existing, hfile, hsame, rfl⟩ | ⟨hfree, rfl⟩)
    · rw [hfile]
      exact if_pos hsame
    · rw [hfree]

theorem filesWith_eq_none {r : Registry} {file : SchemaFile} :
    r.filesWith file = none ↔ r.HoldsOther file := by
  unfold filesWith HoldsOther
  cases r.file? file.name with
  | none => simp
  | some existing => cases hsame : existing == file <;> simp [hsame]

/-- A file whose name another file has is refused, whatever its registrations are. -/
theorem registerSchema_of_holdsOther {r : Registry} {file : SchemaFile}
    (h : r.HoldsOther file) (regs : List Registration) :
    (r.registerSchema file regs).result = .error (.fileConflict file.name) := by
  obtain ⟨existing, hfile, hother⟩ := h
  unfold registerSchema
  rw [hfile]
  dsimp only
  rw [hother]
  rfl

/-- A file is registered if its name is free or its own and its registrations are accepted. Then
those of them whose types were free are bound. -/
theorem registerSchema_eq_ok {r r' : Registry} {file : SchemaFile} {regs : List Registration} :
    (r.registerSchema file regs).result = .ok r' ↔ r.Accepts regs ∧
      ∃ files, r.filesWith file = some files ∧
        r' = { r.insertEach file.name (r.fresh regs) with files := files } := by
  have hdone : ∀ known : Bool, ((do
        let fresh ← Logged.ofExcept (r.checkAll [] regs)
        let bound ← insertAll file.name r (regs.zip fresh)
        return if known then bound else { bound with files := bound.files ++ [file] } :
          Logged RegistrationError Registry).result = .ok r') ↔
      r.Accepts regs ∧ r' = { r.insertEach file.name (r.fresh regs) with
        files := if known then r.files else r.files ++ [file] } := by
    intro known
    have hend : ∀ bound : Registry, bound.files = r.files →
        (if known then bound else { bound with files := bound.files ++ [file] }) =
          { bound with files := if known then r.files else r.files ++ [file] } := by
      intro bound hbound
      cases known <;> simp [← hbound]
    rw [Logged.result_bind, Logged.result_ofExcept, bind_eq_ok]
    constructor
    · rintro ⟨flags, hflags, h⟩
      obtain ⟨rfl, haccepts, -⟩ := checkAll_eq_ok hflags
      rw [Logged.result_bind, insertAll_eq, ok_bind, Logged.result_pure,
        hend _ (files_insertEach r file.name _)] at h
      exact ⟨haccepts, (Except.ok.inj h).symm⟩
    · rintro ⟨haccepts, rfl⟩
      refine ⟨_, checkAll_of_accepts haccepts (by simp), ?_⟩
      rw [Logged.result_bind, insertAll_eq, ok_bind, Logged.result_pure,
        hend _ (files_insertEach r file.name _)]
      rfl
  unfold registerSchema filesWith
  dsimp only
  cases r.file? file.name with
  | none => simpa using hdone false
  | some existing =>
    dsimp only
    split
    · simpa using hdone true
    · constructor
      · intro h
        cases h
      · rintro ⟨-, files, hfiles, -⟩
        cases hfiles

theorem get?_insertEach (r : Registry) (file : String) (regs : List Registration) (t : TypeId) :
    (r.insertEach file regs).get? t =
      ((Registration.last? regs t).map fun reg ↦ ({ reg with file := some file } : Entry)).or
        (r.get? t) := by
  induction regs generalizing r with
  | nil => rfl
  | cons reg rest ih =>
    rw [insertEach, List.foldl_cons]
    refine (ih _).trans ?_
    rw [Registration.last?, Registration.last?, List.reverse_cons, List.find?_append,
      List.find?_singleton, get?_insert]
    cases rest.reverse.find? fun reg ↦ decide (reg.type = t) with
    | some last => simp
    | none =>
      by_cases h : t = reg.type
      · simp [h]
      · simp [h, Ne.symm h]

theorem get?_insertEach_fresh (r : Registry) (file : String) (regs : List Registration)
    (t : TypeId) :
    (r.insertEach file (r.fresh regs)).get? t =
      (r.get? t).or
        ((Registration.last? regs t).map fun reg ↦ ({ reg with file := some file } : Entry)) := by
  have hlast : Registration.last? (r.fresh regs) t =
      if r.contains t then none else Registration.last? regs t := by
    rw [Registration.last?, fresh, ← List.filter_reverse, List.find?_filter]
    split
    · next h =>
      refine List.find?_eq_none.2 fun reg _ hreg ↦ ?_
      obtain ⟨hfree, ht⟩ := of_decide_eq_true hreg
      have ht : reg.type = t := of_decide_eq_true ht
      rw [ht, h] at hfree
      cases hfree
    · next h =>
      refine congrArg (regs.reverse.find? ·) (funext fun reg ↦ ?_)
      by_cases ht : reg.type = t <;> simp [ht, h]
  rw [get?_insertEach, hlast]
  cases hget : r.get? t with
  | some e => rw [contains, hget, Option.isSome_some, if_pos rfl]; rfl
  | none => rw [contains, hget, Option.isSome_none, if_neg Bool.false_ne_true, Option.or_none]; rfl

/-- After a file is registered, a type is bound to one of its registrations, which then was bound to
nothing before, or to what it was bound to. -/
theorem get?_registerSchema {r r' : Registry} {file : SchemaFile} {regs : List Registration}
    (h : (r.registerSchema file regs).result = .ok r') (t : TypeId) :
    (r.get? t = none ∧ ∃ reg ∈ regs, reg.type = t ∧
        r'.get? t = some { reg with file := some file.name }) ∨
      r'.get? t = r.get? t := by
  obtain ⟨-, files, -, rfl⟩ := registerSchema_eq_ok.1 h
  have hget := get?_insertEach_fresh r file.name regs t
  cases hold : r.get? t with
  | some e =>
    rw [hold] at hget
    exact .inr hget
  | none =>
    rw [hold, Option.none_or] at hget
    cases hlast : Registration.last? regs t with
    | none =>
      rw [hlast] at hget
      exact .inr hget
    | some reg =>
      rw [hlast] at hget
      obtain ⟨hreg, ht⟩ := Registration.mem_of_last? hlast
      exact .inl ⟨rfl, reg, hreg, ht, hget⟩

theorem extends_of_registerSchema {r r' : Registry} {file : SchemaFile} {regs : List Registration}
    (h : (r.registerSchema file regs).result = .ok r') : r'.Extends r := by
  intro t e he
  rcases get?_registerSchema h t with ⟨hnone, -⟩ | hget
  · rw [hnone] at he
    cases he
  · rw [hget, he]

/-- A registration of a registered file whose type was bound before has an equal descriptor there;
otherwise its type is bound to the last registration of the file for it. -/
theorem get?_of_mem {r r' : Registry} {file : SchemaFile} {regs : List Registration}
    (h : (r.registerSchema file regs).result = .ok r') {reg : Registration} (hreg : reg ∈ regs) :
    (∃ e, r.get? reg.type = some e ∧ r'.get? reg.type = some e ∧
        (e.descriptor == reg.descriptor) = true) ∨
      r.get? reg.type = none ∧ ∃ last, Registration.last? regs reg.type = some last ∧
        r'.get? reg.type = some { last with file := some file.name } := by
  obtain ⟨haccepts, files, -, rfl⟩ := registerSchema_eq_ok.1 h
  have hget := get?_insertEach_fresh r file.name regs reg.type
  cases hold : r.get? reg.type with
  | some e =>
    rw [hold] at hget
    have hnew := haccepts.checked reg hreg
    rw [contains, hold] at hnew
    obtain ⟨e', he', hd⟩ := isNew_eq_false.1 hnew
    obtain rfl := Option.some.inj (hold.symm.trans he')
    exact .inl ⟨e, rfl, hget, hd⟩
  | none =>
    obtain ⟨last, hlast⟩ := Registration.exists_last? hreg
    rw [hold, hlast] at hget
    exact .inr ⟨rfl, last, hlast, hget⟩

/-- Every type of a registered file is bound to the description that the file has for it or to an
equal one, provided that the file asks for each type once. -/
theorem exists_entry_of_registerSchema {r r' : Registry} {file : SchemaFile}
    {regs : List Registration} (h : (r.registerSchema file regs).result = .ok r')
    (hdistinct : (regs.map (·.type)).Nodup) {reg : Registration} (hreg : reg ∈ regs) :
    ∃ e, r'.get? reg.type = some e ∧ e.descriptor.Same reg.descriptor := by
  rcases get?_of_mem h hreg with ⟨e, -, he, hd⟩ | ⟨-, last, hlast, he⟩
  · exact ⟨e, he, .inr hd⟩
  · obtain ⟨hmem, ht⟩ := Registration.mem_of_last? hlast
    obtain rfl : last = reg := List.inj_on_of_nodup_map hdistinct hmem hreg ht
    exact ⟨_, he, .inl rfl⟩

end Registry

end ProtoSchema
