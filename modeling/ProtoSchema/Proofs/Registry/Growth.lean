import ProtoSchema.Proofs.Codec.Lookup
import ProtoSchema.Proofs.Registry.Bijection

/-!
# Registries only grow

Nothing that is bound in a registry is ever taken back or bound anew: a registration is refused when
its type or its name is bound to anything else, and a file when its name is. One thing has to be
known of a registry for that. Whether a name is free is asked of the entry that the name leads to,
so no name may be bound to a type that is not bound itself. That is kept as well, even where types
and names are not inverse to each other.

With the bindings the outcomes of reading and writing are kept, except for complaints about unknown
types, which may turn into results as soon as the types are registered.
-/

set_option autoImplicit false

namespace ProtoSchema

namespace Registry

/-- What is bound in a registry is bound to the same in another one. -/
structure Grows (r r' : Registry) : Prop where
  entries : r'.Extends r
  names : ∀ name t, r.names.lookup name = some t → r'.names.lookup name = some t
  files : ∀ name file, r.file? name = some file → r'.file? name = some file

/-- Names are bound to bound types. -/
def NamesBound (r : Registry) : Prop :=
  ∀ name t, r.names.lookup name = some t → ∃ e, r.get? t = some e

variable {r r' r'' : Registry} {reg : Registration} {file : SchemaFile} {regs : List Registration}

theorem Grows.refl (r : Registry) : r.Grows r := ⟨.refl r, fun _ _ h ↦ h, fun _ _ h ↦ h⟩

theorem Grows.trans (h : r.Grows r') (h' : r'.Grows r'') : r.Grows r'' :=
  ⟨h'.entries.trans h.entries, fun name t ht ↦ h'.names name t (h.names name t ht),
    fun name file hfile ↦ h'.files name file (h.files name file hfile)⟩

theorem Grows.named? (h : r.Grows r') {name : String} {e : Entry} (he : r.named? name = some e) :
    r'.named? name = some e := by
  obtain ⟨t, ht, he⟩ := Option.bind_eq_some_iff.1 he
  exact Option.bind_eq_some_iff.2 ⟨t, h.names name t ht, h.entries t e he⟩

theorem namesBound_empty : empty.NamesBound := fun _ _ h ↦ by cases h

theorem Bijective.namesBound (h : r.Bijective) : r.NamesBound := fun name t ht ↦
  ((h.named name t).1 ht).imp fun _ ↦ And.left

theorem NamesBound.lookup_eq_none (h : r.NamesBound) {name : String}
    (hname : r.named? name = none) : r.names.lookup name = none := by
  cases hlookup : r.names.lookup name with
  | none => rfl
  | some t =>
    obtain ⟨e, he⟩ := h name t hlookup
    rw [named?, hlookup, Option.bind_some, he] at hname
    cases hname

/-! ## Binding

Whatever is bound is new, in its type and in its name, so no binding is lost. -/

theorem grows_insert (hfree : r.get? reg.type = none) (hname : r.names.lookup reg.name = none)
    (file : Option String) : r.Grows (r.insert reg file) where
  entries t e he := by
    rw [get?_insert]
    split
    · next ht =>
      rw [ht, hfree] at he
      cases he
    · exact he
  names name t ht := by
    rw [names_insert]
    split
    · next heq =>
      rw [heq, hname] at ht
      cases ht
    · exact ht
  files _ _ h := h

theorem NamesBound.insert (h : r.NamesBound) (reg : Registration) (file : Option String) :
    (r.insert reg file).NamesBound := by
  intro name t ht
  rw [get?_insert]
  split
  · exact ⟨_, rfl⟩
  · next hne =>
    rw [names_insert] at ht
    split at ht
    · exact absurd (Option.some.inj ht).symm hne
    · exact h name t ht

theorem NamesBound.insertEach (h : r.NamesBound) (file : String) (regs : List Registration) :
    (r.insertEach file regs).NamesBound :=
  insertEach_induction file h fun _ h reg _ ↦ NamesBound.insert h reg (some file)

theorem lookup_insertEach (file : String) {name : String} (h : ∀ reg ∈ regs, reg.name ≠ name) :
    (r.insertEach file regs).names.lookup name = r.names.lookup name := by
  refine insertEach_induction (P := fun r' ↦ r'.names.lookup name = r.names.lookup name) file rfl
    fun r' hr' reg hreg ↦ ?_
  rw [names_insert, if_neg (h reg hreg).symm, hr']

theorem file?_of_filesWith {files : List SchemaFile} (h : r.filesWith file = some files)
    {name : String} {file' : SchemaFile} (hfile : r.file? name = some file') :
    files.find? (·.name == name) = some file' := by
  rcases filesWith_eq_some.1 h with ⟨_, -, -, rfl⟩ | ⟨-, rfl⟩
  · exact hfile
  · rw [List.find?_append, show r.files.find? (·.name == name) = some file' from hfile]
    rfl

/-- **Registering a type only adds to a registry.** -/
theorem NamesBound.register (h : r.NamesBound) (hreg : (r.register reg).result = .ok r') :
    r.Grows r' ∧ r'.NamesBound := by
  rcases register_eq_ok hreg with ⟨hnew, rfl⟩ | ⟨-, rfl⟩
  · obtain ⟨hfree, hname⟩ := isNew_eq_true.1 hnew
    exact ⟨grows_insert hfree (h.lookup_eq_none hname) none, h.insert reg none⟩
  · exact ⟨.refl r', h⟩

/-- **Registering a file only adds to a registry.** -/
theorem NamesBound.registerSchema (h : r.NamesBound)
    (hreg : (r.registerSchema file regs).result = .ok r') : r.Grows r' ∧ r'.NamesBound := by
  have hextends := extends_of_registerSchema hreg
  obtain ⟨haccepts, files, hfiles, rfl⟩ := registerSchema_eq_ok.1 hreg
  refine ⟨⟨hextends, fun name t ht ↦ ?_, fun name file' hfile ↦ file?_of_filesWith hfiles hfile⟩,
    h.insertEach file.name _⟩
  refine (lookup_insertEach file.name fun reg hfresh heq ↦ ?_).trans ht
  -- A name that is bound is not one of those that get bound.
  obtain ⟨hmem, hfree⟩ := mem_fresh.1 hfresh
  have hnew := haccepts.checked reg hmem
  rw [contains_eq_false.2 hfree] at hnew
  have hnone := h.lookup_eq_none (isNew_eq_true.1 hnew).2
  rw [heq, ht] at hnone
  cases hnone

/-! ## The codec -/

/-- Whatever reading and writing come to with a registry, a complaint about an unknown type apart,
they come to with another one. -/
structure AnswersAs (r' r : Registry) : Prop where
  encode : ∀ i, (∀ name, r.encode i ≠ .error (.unknownType name)) → r'.encode i = r.encode i
  decode : ∀ t input, (∀ name, (r.decode t input).result ≠ .error (.unknownType name)) →
    (r'.decode t input).result = (r.decode t input).result
  decodeNamed : ∀ q input, (∀ name, (r.decodeNamed q input).result ≠ .error (.unknownType name)) →
    (r'.decodeNamed q input).result = (r.decodeNamed q input).result

/-- **A registry that grew answers as before.** -/
theorem Grows.answersAs (h : r.Grows r') : r'.AnswersAs r where
  encode i hne := by
    cases hm : r.messageMarshaller? i.type with
    | some m => exact (keeps_encode h.entries hm).eq_of_ne hne
    | none =>
      rw [Registry.encode, hm] at hne
      exact absurd rfl (hne _)
  decode t input hne := by
    cases hm : r.messageMarshaller? t with
    | some m => exact (keeps_decode h.entries hm input).eq_of_ne hne
    | none =>
      rw [Registry.decode, hm] at hne
      exact absurd rfl (hne _)
  decodeNamed q input hne := by
    cases he : (r.named? q).bind (·.marshaller.message?) with
    | some m =>
      obtain ⟨e, he, hm⟩ := Option.bind_eq_some_iff.1 he
      have hm := Marshaller.message?_eq_some.1 hm
      exact (keeps_decodeNamed h.entries he (h.named? he) hm input).eq_of_ne hne
    | none =>
      rw [Registry.decodeNamed, he] at hne
      exact absurd rfl (hne _)

end Registry

end ProtoSchema
