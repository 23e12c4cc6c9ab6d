/-!
# Steps that may stop and keep a log

A document may hold a value of any shape anywhere. Where a step cannot work with what it finds, the
whole step ends with a fault that says what kind of mismatch it was. A step that keeps a log leaves
what it noticed on the way, whether it ends with a value or stops with an error.

* `Fault`: how a value did not fit the step that used it.
* `Logged.note`: a step that only adds to the log.
* `Logged.lift`: a step that may stop and notices nothing.
-/

namespace SchemaForge

/-- How a value did not fit the step that used it. -/
inductive Fault where
  /-- The step is not defined on values of this type. -/
  | wrongType
  /-- A part was asked for that values of this type do not have. -/
  | lacksPart
  /-- A mapping lacks a key that must be there. -/
  | lacksKey
  /-- A value of the right type is outside the range of the step. -/
  | badValue
  /-- A reference leads back to itself through what it refers to. -/
  | endless
  deriving DecidableEq, Repr, Inhabited

/-- The outcome of a step and what it noticed. -/
structure Logged (ε ω α : Type) where
  log : List ω
  outcome : Except ε α

namespace Logged

variable {ε ω α β : Type}

/-- A value, with nothing noticed. -/
def pure (a : α) : Logged ε ω α := { log := [], outcome := .ok a }

/-- One step after another; a step that stops is the last. -/
def bind (x : Logged ε ω α) (f : α → Logged ε ω β) : Logged ε ω β :=
  match x.outcome with
  | .error e => { log := x.log, outcome := .error e }
  | .ok a =>
    let y := f a
    { log := x.log ++ y.log, outcome := y.outcome }

instance : Monad (Logged ε ω) where
  pure := Logged.pure
  bind := Logged.bind

/-- A step that only adds to the log. -/
def note (w : ω) : Logged ε ω Unit := { log := [w], outcome := .ok () }

/-- A step that may stop and notices nothing. -/
def lift (x : Except ε α) : Logged ε ω α := { log := [], outcome := x }

/-- A step that stops. -/
def stop (e : ε) : Logged ε ω α := { log := [], outcome := .error e }

end Logged

end SchemaForge
