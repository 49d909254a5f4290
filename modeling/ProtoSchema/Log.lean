/-!
# Results with a log

A computation that may fail and that notes what it does along the way. What was noted before a
failure stays noted. Forgetting the notes is a morphism of monads, so every law about results can
be stated as if nothing were noted.
-/

set_option autoImplicit false

namespace ProtoSchema

/-- How loud a note is. -/
inductive LogLevel where
  | trace | debug | warn
  deriving DecidableEq, Repr

def LogLevel.name : LogLevel → String
  | trace => "TRACE"
  | debug => "DEBUG"
  | warn => "WARN"

structure LogLine where
  level : LogLevel
  text : String
  deriving DecidableEq, Repr

def LogLine.render (l : LogLine) : String := l.level.name ++ " " ++ l.text

/-- A result with the notes made on the way to it, in order. -/
structure Logged (ε α : Type) where
  lines : List LogLine
  result : Except ε α

namespace Logged

variable {ε ε' α β : Type}

/-- A result without notes. -/
def ofExcept (result : Except ε α) : Logged ε α := ⟨[], result⟩

def note (level : LogLevel) (text : String) : Logged ε Unit := ⟨[⟨level, text⟩], .ok ()⟩

/-- Goes on with a result if there is one. -/
def bind (x : Logged ε α) (f : α → Logged ε β) : Logged ε β :=
  match x.result with
  | .ok a => ⟨x.lines ++ (f a).lines, (f a).result⟩
  | .error e => ⟨x.lines, .error e⟩

def mapError (f : ε → ε') (x : Logged ε α) : Logged ε' α := ⟨x.lines, x.result.mapError f⟩

/-- Steps run one after the other; an error is the last step. -/
instance : Monad (Logged ε) where
  pure a := ⟨[], .ok a⟩
  bind := Logged.bind

/-- The lines noted before an error is handled remain. -/
instance : MonadExceptOf ε (Logged ε) where
  throw e := ⟨[], .error e⟩
  tryCatch x handle :=
    match x.result with
    | .ok a => ⟨x.lines, .ok a⟩
    | .error e => ⟨x.lines ++ (handle e).lines, (handle e).result⟩

/-- A result without lines. -/
instance : MonadLift (Except ε) (Logged ε) := ⟨ofExcept⟩

@[simp] theorem result_pure (a : α) : (pure a : Logged ε α).result = .ok a := rfl

@[simp] theorem result_ofExcept (x : Except ε α) : (ofExcept x).result = x := rfl

@[simp] theorem result_note (level : LogLevel) (text : String) :
    (note level text : Logged ε Unit).result = .ok () := rfl

@[simp] theorem result_throw (e : ε) : (throw e : Logged ε α).result = .error e := rfl

@[simp] theorem result_bind (x : Logged ε α) (f : α → Logged ε β) :
    (x >>= f).result = x.result >>= fun a ↦ (f a).result := by
  change (Logged.bind x f).result = _
  unfold Logged.bind
  cases hx : x.result <;> rfl

@[simp] theorem result_mapError (f : ε → ε') (x : Logged ε α) :
    (x.mapError f).result = x.result.mapError f := rfl

end Logged

end ProtoSchema
