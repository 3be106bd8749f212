import Rerun.Error

/-!
# Worker pools

A pool lets a limited number of jobs run at once. A job that panics fails with an error of its own,
and the pool goes on. A closed pool takes no more jobs, but lets those that run come to their end.
-/

namespace Rerun

/-- A pool, as far as it does not change with every job. -/
structure Pool where
  name : String
  size : Nat
  isClosed : Bool := false
  deriving DecidableEq

namespace Pool

/-- The largest number of workers that can be counted. -/
def maxSize : Nat := 2305843009213693951

/-- A pool with some workers, but at least one. -/
def create (name : String) (workers : Nat) : Result Pool :=
  if maxSize < workers then
    .error (.panic (.text
      s!"a semaphore may not have more than MAX_PERMITS permits ({maxSize})"))
  else .ok { name, size := max workers 1 }

def close (p : Pool) : Pool := { p with isClosed := true }

/-- Why a job that waits for a worker never starts, if there is a reason. That its submitter gave up
counts more than that the pool is closed. -/
def refusal (p : Pool) (cancelled : Bool) : Option Error :=
  if cancelled then some .cancelled
  else if p.isClosed then
    some (.engineUnavailable s!"{p.name} worker pool is closed")
  else none

def panicText : Payload → String
  | .text s => s
  | .other => "non-string panic payload"

/-- The outcome that a job hands to its submitter, once it ends. -/
def outcome? {α : Type} : Result α → Option (Except Error α)
  | .ok a => some (.ok a)
  | .error (.error e) => some (.error e)
  | .error (.panic payload) =>
    some (.error (.engineFault s!"worker panicked: {panicText payload}"))
  | .error .endless => none

def isPanic {α : Type} : Result α → Bool
  | .error (.panic _) => true
  | _ => false

end Pool

end Rerun
