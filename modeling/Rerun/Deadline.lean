import Rerun.Error

/-!
# Deadlines

Time passes in looks at the clock: an engine that runs looks at it before every step. A deadline
tells after how many looks it expires, if it ever does, and how many have passed. Engines do not see
the deadline itself: someone watches it for them, and starts to do so only when a call begins.
-/

namespace Rerun

/-- A limit on looks at the clock, and the looks so far. -/
structure Deadline where
  limit : Option Nat
  spent : Nat := 0
  /-- The looks that a call takes before anyone watches for it. -/
  lag : Nat := 0
  deriving DecidableEq

namespace Deadline

def never : Deadline := { limit := none }

def after (looks : Nat) : Deadline := { limit := some looks }

def past : Deadline := after 0

def isExpired (d : Deadline) : Bool :=
  match d.limit with
  | none => false
  | some n => n ≤ d.spent

def tick (d : Deadline) : Deadline := { d with spent := d.spent + 1 }

/-- A deadline as an engine sees it in a call that begins now: one that has expired already stops
the call only once someone watches for it. -/
def watched (d : Deadline) : Deadline :=
  if d.isExpired then { d with limit := d.spent + d.lag } else d

/-- The shorter of two limits. -/
def shorter : Option Nat → Option Nat → Option Nat
  | some a, some b => some (min a b)
  | some a, none => some a
  | none, b => b

/-- A deadline that expires after some more looks if it does not expire before. -/
def within (d : Deadline) (looks : Option Nat) : Deadline :=
  { d with limit := shorter d.limit (looks.map (d.spent + ·)) }

/-- The looks until it expires; for one that never does, as many as anyone waits for. -/
def remaining (d : Deadline) (horizon : Nat) : Nat :=
  match d.limit with
  | none => horizon
  | some n => n - d.spent

end Deadline

/-- How looks relate to time. -/
structure Clock where
  /-- The looks in a millisecond. -/
  pace : Nat
  /-- The looks after which a call without a limit is taken for one that never ends. -/
  horizon : Nat
  lag : Nat

/-- A deadline that a limit in milliseconds sets from now on. -/
def Clock.deadline (clock : Clock) : Option Nat → Deadline
  | none => .never
  | some ms => { limit := some (ms * clock.pace), lag := clock.lag }

/-- What a call that runs a machine leaves behind: how it ended, the clock, and the machine. -/
structure Ran (μ : Type) where
  result : Result Unit
  deadline : Deadline
  machine : μ

end Rerun
