import Rerun.Pool.Basic

/-!
# Turns on workers

A roster tells when the workers of a pool have nothing to do any more. Jobs that are submitted
together take their turns in order: each one starts as soon as some worker has nothing to do, and
the time that it waited for that counts like any other time.
-/

namespace Rerun.Pool

/-- The workers of a pool while jobs take their turns. -/
structure Roster where
  idle : Nat
  /-- When the jobs of the others end. A worker whose job never ends is not among them. -/
  ends : List Nat := []
  deriving DecidableEq

namespace Roster

def ofPool (p : Pool) : Roster := { idle := p.size }

/-- The next turn at some time or later: when it begins, and the workers without the one that takes
it. There is none if no worker ever has nothing to do. -/
def next? (w : Roster) (now : Nat) : Option (Nat × Roster) :=
  match w.idle, w.ends.min? with
  | idle + 1, _ => some (now, { w with idle })
  | 0, some first => some (max now first, { w with ends := w.ends.erase first })
  | 0, none => none

/-- The worker that took a turn comes back when its job ends, if it does. -/
def giveBack (w : Roster) : Option Nat → Roster
  | some time => { w with ends := time :: w.ends }
  | none => w

end Roster

end Rerun.Pool
