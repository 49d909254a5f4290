import ProtoSchema.Value.Basic

/-!
# Maps over native types

A map whose keys are identities of native types, kept in the order in which the keys first came.
-/

set_option autoImplicit false

namespace ProtoSchema

structure TypeMap (α : Type) where
  pairs : List (TypeId × α) := []

namespace TypeMap

variable {α : Type}

/-- Nothing is bound. -/
def empty : TypeMap α := ⟨[]⟩

def size (m : TypeMap α) : Nat := m.pairs.length

/-- The value bound to a type. -/
def get? (m : TypeMap α) (type : TypeId) : Option α := m.pairs.lookup type

def contains (m : TypeMap α) (type : TypeId) : Bool := (m.get? type).isSome

def values (m : TypeMap α) : List α := m.pairs.map (·.2)

/-- Replaces the value of a key, or puts the pair behind the others. -/
def insertPair (type : TypeId) (a : α) : List (TypeId × α) → List (TypeId × α)
  | [] => [(type, a)]
  | (type', a') :: rest =>
    if type = type' then (type, a) :: rest else (type', a') :: insertPair type a rest

/-- Binds a type, replacing what is bound to it. -/
def insert (m : TypeMap α) (type : TypeId) (a : α) : TypeMap α := ⟨insertPair type a m.pairs⟩

/-- Binds a type unless it is bound already; the second part tells whether it was free. -/
def tryInsert (m : TypeMap α) (type : TypeId) (a : α) : TypeMap α × Bool :=
  if m.contains type then (m, false) else (m.insert type a, true)

theorem lookup_insertPair (type type' : TypeId) (a : α) (pairs : List (TypeId × α)) :
    (insertPair type a pairs).lookup type' =
      if type' = type then some a else pairs.lookup type' := by
  induction pairs with
  | nil =>
    by_cases h : type' = type
    · subst h; simp [insertPair]
    · have : (type' == type) = false := by simpa using h
      simp [insertPair, List.lookup_cons, this, h]
  | cons p rest ih =>
    obtain ⟨t, b⟩ := p
    rw [insertPair]
    split
    · next h =>
      subst h
      by_cases h' : type' = type
      · subst h'; simp
      · have : (type' == type) = false := by simpa using h'
        simp [List.lookup_cons, this, h']
    · next h =>
      by_cases h' : type' = t
      · subst h'
        have : type' ≠ type := fun e ↦ h e.symm
        simp [this]
      · have : (type' == t) = false := by simpa using h'
        simp [List.lookup_cons, this, ih]

/-- What is bound after an insertion. -/
@[simp] theorem get?_insert (m : TypeMap α) (type type' : TypeId) (a : α) :
    (m.insert type a).get? type' = if type' = type then some a else m.get? type' :=
  lookup_insertPair type type' a m.pairs

end TypeMap

end ProtoSchema
