import Cantilena.Fault

/-!
# Reports beside a result

An operation may report what it passed over. `Logged` holds those reports, in order, beside the
result or the fault it ended with; what was reported before a fault stays reported.
-/

namespace Cantilena

/-- The weight of a report. -/
inductive Level
  | debug | info | warning | error
  deriving DecidableEq, Repr, Inhabited

/-- One report. -/
structure LogEntry where
  level : Level
  text : String
  deriving DecidableEq, Repr, Inhabited

/-- A result or a fault, with what was reported on the way. -/
structure Logged (α : Type) where
  log : List LogEntry
  outcome : Except Fault α

namespace Logged

variable {α β : Type}

/-- A result with nothing to report. -/
def ok (a : α) : Logged α := ⟨[], .ok a⟩

/-- A fault with nothing to report. -/
def fault (e : Fault) : Logged α := ⟨[], .error e⟩

/-- A result or a fault with nothing to report. -/
def ofExcept (r : Except Fault α) : Logged α := ⟨[], r⟩

/-- Reports and no more. -/
def tell (log : List LogEntry) : Logged Unit := ⟨log, .ok ()⟩

/-- One report and no more. -/
def say (level : Level) (text : String) : Logged Unit := tell [⟨level, text⟩]

/-- Goes on with a result; the reports follow one another. -/
def bind (x : Logged α) (f : α → Logged β) : Logged β :=
  match x.outcome with
  | .ok a => let y := f a; ⟨x.log ++ y.log, y.outcome⟩
  | .error e => ⟨x.log, .error e⟩

instance : Monad Logged where
  pure := ok
  bind := bind

instance : MonadLift (Except Fault) Logged where
  monadLift := ofExcept

@[simp] theorem bind_log_of_ok {x : Logged α} {a : α} (h : x.outcome = .ok a) (f : α → Logged β) :
    (x.bind f).log = x.log ++ (f a).log := by
  simp [bind, h]

@[simp] theorem bind_outcome (x : Logged α) (f : α → Logged β) :
    (x.bind f).outcome = x.outcome.bind fun a => (f a).outcome := by
  cases h : x.outcome <;> simp [bind, h, Except.bind]

end Logged

end Cantilena
