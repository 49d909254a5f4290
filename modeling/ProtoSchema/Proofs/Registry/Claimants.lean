import ProtoSchema.Proofs.Registry.Register

/-!
# Who holds a name

A registration that is refused for its name is told who holds the name. Within a file there are two
who may: a type of the registry, or a type that an earlier registration of the file is for. Names of
earlier registrations are remembered with their types but without their marshallers, so what can be
said of the second case is only that there is such a registration; the path that is told is that of
the refused one.

That the holder in the registry is another type needs that entries are found under the types of
their own marshallers. Registering keeps that, whatever else becomes of types and names.
-/

set_option autoImplicit false

namespace ProtoSchema

namespace Registry

/-- Entries are bound to the types of their own marshallers. -/
def Keyed (r : Registry) : Prop := ∀ t e, r.get? t = some e → e.type = t

/-- Another type than the given one holds a name in the registry, under the path that its marshaller
has for it. -/
def HeldByOther (r : Registry) (name : String) (type : TypeId) (path : String) : Prop :=
  ∃ e, r.named? name = some e ∧ e.type ≠ type ∧ e.marshaller.path = path

variable {r r' : Registry} {reg : Registration} {file : SchemaFile} {regs : List Registration}
  {name existing : String}

/-! ## Entries under their own types -/

theorem keyed_empty : empty.Keyed := fun _ _ h ↦ by cases h

theorem Keyed.insert (h : r.Keyed) (reg : Registration) (file : Option String) :
    (r.insert reg file).Keyed := by
  intro t e he
  rw [get?_insert] at he
  split at he
  · next ht =>
    obtain rfl := Option.some.inj he
    exact ht.symm
  · exact h t e he

theorem Keyed.insertEach (h : r.Keyed) (file : String) (regs : List Registration) :
    (r.insertEach file regs).Keyed :=
  insertEach_induction file h fun _ h reg _ ↦ Keyed.insert h reg (some file)

theorem Keyed.register (h : r.Keyed) (hreg : (r.register reg).result = .ok r') : r'.Keyed := by
  rcases register_eq_ok hreg with ⟨-, rfl⟩ | ⟨-, rfl⟩
  · exact h.insert reg none
  · exact h

theorem Keyed.registerSchema (h : r.Keyed) (hreg : (r.registerSchema file regs).result = .ok r') :
    r'.Keyed := by
  obtain ⟨-, files, -, rfl⟩ := registerSchema_eq_ok.1 hreg
  exact h.insertEach file.name (r.fresh regs)

/-! ## Refused registrations

What earlier registrations of the file claim is looked at first, and the registry comes second. It
names the holder by the marshaller that it has for it. -/

theorem Keyed.type_ne (h : r.Keyed) {e : Entry} {t : TypeId} (hname : r.named? name = some e)
    (hfree : r.get? t = none) : e.type ≠ t := by
  obtain ⟨t', -, he⟩ := Option.bind_eq_some_iff.1 hname
  rintro rfl
  rw [h t' e he, he] at hfree
  cases hfree

theorem Keyed.heldByOther_of_isNew (h : r.Keyed)
    (hnew : r.isNew reg = .error (.nameConflict name existing)) :
    reg.name = name ∧ r.HeldByOther name reg.type existing := by
  unfold isNew at hnew
  split at hnew
  · split at hnew <;> cases hnew
  · next hfree =>
    split at hnew
    · next e he =>
      cases hnew
      exact ⟨rfl, e, he, h.type_ne he hfree, rfl⟩
    · cases hnew

theorem Keyed.heldByOther_of_register (h : r.Keyed)
    (hreg : (r.register reg).result = .error (.nameConflict name existing)) :
    reg.name = name ∧ r.HeldByOther name reg.type existing := by
  unfold Registry.register at hreg
  rw [Logged.result_bind, bind_eq_error] at hreg
  rcases hreg with hnew | ⟨new, -, hreg⟩
  · exact h.heldByOther_of_isNew hnew
  · cases new <;> cases hreg

/-- What a file is told when one of its registrations is refused for its name: the path of another
type that holds the name in the registry, or, if an earlier registration of the file claims the name
for another type, its own path. -/
inductive Refuses (r : Registry) (earlier : List Registration) (reg : Registration) : String → Prop
  | held {path : String} (h : r.HeldByOther reg.name reg.type path) : Refuses r earlier reg path
  | claimed {other : Registration} (hother : other ∈ earlier) (hname : other.name = reg.name)
      (htype : other.type ≠ reg.type) : Refuses r earlier reg reg.marshaller.path

/-- The names that registrations claim for their types, the last one in front. -/
def claims (regs : List Registration) : List (String × TypeId) :=
  (regs.map fun reg ↦ (reg.name, reg.type)).reverse

theorem exists_of_lookup_claims {t : TypeId} (h : (claims regs).lookup name = some t) :
    ∃ reg ∈ regs, reg.name = name ∧ reg.type = t := by
  obtain ⟨l₁, l₂, hclaims, -⟩ := List.lookup_eq_some_iff.1 h
  have hmem : (name, t) ∈ claims regs := by
    rw [hclaims]
    exact List.mem_append_right l₁ List.mem_cons_self
  obtain ⟨reg, hreg, heq⟩ := List.mem_map.1 (List.mem_reverse.1 hmem)
  obtain ⟨hname, htype⟩ := Prod.mk.inj heq
  exact ⟨reg, hreg, hname, htype⟩

theorem Keyed.refuses_of_checkAll (h : r.Keyed) {earlier : List Registration}
    (hcheck : r.checkAll (claims earlier) regs = .error (.nameConflict name existing)) :
    ∃ between reg later, regs = between ++ reg :: later ∧ reg.name = name ∧
      r.Refuses (earlier ++ between) reg existing := by
  induction regs generalizing earlier with
  | nil => cases hcheck
  | cons reg rest ih =>
    rw [checkAll] at hcheck
    dsimp only at hcheck
    rcases ite_error_eq_error.1 hcheck with ⟨hclash, herror⟩ | ⟨-, hcheck⟩
    · obtain ⟨rfl, rfl⟩ := RegistrationError.nameConflict.inj herror
      split at hclash
      · next t ht =>
        obtain ⟨other, hother, hname, rfl⟩ := exists_of_lookup_claims ht
        rw [← List.append_nil earlier] at hother
        exact ⟨[], reg, rest, rfl, rfl, .claimed hother hname (of_decide_eq_true hclash)⟩
      · cases hclash
    · rcases bind_eq_error.1 hcheck with hnew | ⟨new, -, hcheck⟩
      · obtain ⟨rfl, hheld⟩ := h.heldByOther_of_isNew hnew
        exact ⟨[], reg, rest, rfl, rfl, .held hheld⟩
      · rcases bind_eq_error.1 hcheck with hrest | ⟨_, -, hcheck⟩
        · -- What was seen, with this registration, is again what some registrations claim.
          have hclaims : (reg.name, reg.type) :: claims earlier = claims (earlier ++ [reg]) := by
            rw [claims, claims, List.map_append, List.reverse_append]
            rfl
          rw [hclaims] at hrest
          obtain ⟨between, refused, later, rfl, hname, hrefuses⟩ := ih hrest
          rw [List.append_assoc] at hrefuses
          exact ⟨reg :: between, refused, later, rfl, hname, hrefuses⟩
        · cases hcheck

theorem Keyed.refuses_of_registerSchema (h : r.Keyed)
    (hreg : (r.registerSchema file regs).result = .error (.nameConflict name existing)) :
    ∃ earlier reg later, regs = earlier ++ reg :: later ∧ reg.name = name ∧
      r.Refuses earlier reg existing := by
  have hdone : ∀ known : Bool, ((do
        let fresh ← Logged.ofExcept (r.checkAll [] regs)
        let bound ← insertAll file.name r (regs.zip fresh)
        return if known then bound else { bound with files := bound.files ++ [file] } :
          Logged RegistrationError Registry).result = .error (.nameConflict name existing)) →
      r.checkAll (claims []) regs = .error (.nameConflict name existing) := by
    intro known hdone
    rw [Logged.result_bind, Logged.result_ofExcept, bind_eq_error] at hdone
    rcases hdone with hcheck | ⟨flags, hflags, hdone⟩
    · exact hcheck
    · obtain ⟨rfl, -⟩ := checkAll_eq_ok hflags
      rw [Logged.result_bind, insertAll_eq, ok_bind] at hdone
      cases hdone
  have hcheck : r.checkAll (claims []) regs = .error (.nameConflict name existing) := by
    unfold Registry.registerSchema at hreg
    split at hreg
    · split at hreg
      · exact hdone true hreg
      · cases hreg
    · exact hdone false hreg
  exact h.refuses_of_checkAll hcheck

end Registry

end ProtoSchema
