import SourceStamp.Log.Logger

/-!
# Code that uses loggers

What code does with loggers: it logs, starts and stops timers, counts, derives loggers from one
another, and raises and catches failures.

- `Families`: the loggers that no other one is derived from, one for each family, and
  `Families.Member`: a logger that is derived from one of them.
- `LoggerCall`: the calls of loggers, and `LoggerCall.exec`: what they do.
- `Usage`: the code. What it does next depends on what it was answered.
- `Usage.exec`: what it does.
-/

namespace SourceStamp

/-- A logger is derived from another one by refining the context, perhaps several times. -/
inductive Logger.Descends (ancestor : Logger) : Logger → Prop where
  | refl : Descends ancestor ancestor
  | withContext {l : Logger} (h : Descends ancestor l) (c : Context) :
    Descends ancestor (l.withContext c)

/-- The loggers that are made by themselves, one for each family. -/
structure Families where
  /-- The logger of a family that all others of it are derived from. -/
  root : Nat → Logger
  family_root : ∀ n, (root n).family = n

/-- A logger of one of the families. -/
structure Families.Member (F : Families) where
  /-- The logger. -/
  logger : Logger
  descends : (F.root logger.family).Descends logger

namespace Families

variable {F : Families}

/-- The first member of a family. -/
def first (F : Families) (n : Nat) : F.Member :=
  ⟨F.root n, by rw [F.family_root]; exact .refl⟩

namespace Member

/-- The family of a member. -/
def family (m : F.Member) : Nat := m.logger.family

/-- The member of the same family with a refined context. -/
def child (m : F.Member) (c : Context) : F.Member :=
  ⟨m.logger.withContext c, m.descends.withContext c⟩

end Member
end Families

/-- A call of a logger, or some time that passes. -/
inductive LoggerCall (F : Families) where
  /-- Time passes. -/
  | pass (ticks : Int)
  /-- A logger is derived from a member. -/
  | child (m : F.Member) (c : Context)
  /-- An entry is logged. -/
  | log (m : F.Member) (level : Value) (message : Text) (data metadata : Value)
  /-- A timer is started. -/
  | start (m : F.Member) (label : Text) (metadata : Value)
  /-- A timer is stopped. -/
  | stop (m : F.Member) (label : Text)
  /-- Something is counted. -/
  | count (m : F.Member) (label : Text)
  /-- A counter is set back. -/
  | reset (m : F.Member) (label : Text)

namespace LoggerCall

variable {F : Families}

/-- What a call answers. -/
def Answer : LoggerCall F → Type
  | pass .. | start .. | reset .. => Unit
  | child .. => F.Member
  | log .. => Option Entry
  | stop .. => Option Measurement
  | count .. => Nat

/-- What a call does. -/
def exec : (c : LoggerCall F) → LogM c.Answer
  | pass ticks => modify (·.pass ticks)
  | child m c => return m.child c
  | log m level message data metadata => m.logger.writeNamed level message data metadata
  | start m label metadata => m.logger.startTimer label metadata
  | stop m label => m.logger.stopTimer label
  | count m label => m.logger.count label
  | reset m label => m.logger.resetCount label

end LoggerCall

/-- Code that uses loggers. -/
inductive Usage (F : Families) (ρ : Type) where
  /-- It is over. -/
  | done (result : ρ)
  /-- It fails. -/
  | raise (e : LogError)
  /-- It calls a logger. -/
  | call (c : LoggerCall F) (next : c.Answer → Usage F ρ)
  /-- It runs a part under a timer. -/
  | measure (m : F.Member) (label : Text) (body : Usage F ρ) (next : ρ → Usage F ρ)
  /-- It runs a part whose failures it handles. -/
  | attempt (body : Usage F ρ) (handler : LogError → Usage F ρ) (next : ρ → Usage F ρ)

/-- What code does. -/
def Usage.exec {F : Families} {ρ : Type} : Usage F ρ → LogM ρ
  | done result => return result
  | raise e => throw e
  | call c next => do
    let answer ← c.exec
    (next answer).exec
  | measure m label body next => do
    let result ← m.logger.measure label body.exec
    (next result).exec
  | attempt body handler next => do
    let result ← tryCatch body.exec fun e => (handler e).exec
    (next result).exec

end SourceStamp
