import Rerun.Promise
import Rerun.State

/-!
# Runs

A run carries an input to an outcome. The first outcome counts. A run can be closed by anyone who
has it, at any time; if it has no outcome by then, it was cancelled.
-/

namespace Rerun

/-- A run that was launched. -/
structure Run where
  id : UInt64
  root : Digest
  promise : Promise GlobalState := {}
  isClosed : Bool := false

namespace Run

def isResolved (r : Run) : Bool := r.promise.isResolved

def outcome? (r : Run) : Option (Except Error GlobalState) := r.promise.outcome

/-- Takes an outcome, and tells whether it was accepted. -/
def take (r : Run) (outcome : Except Error GlobalState) : Bool × Run :=
  let (accepted, promise) := r.promise.resolve outcome
  (accepted, { r with promise })

/-- Asks the work on it to stop. -/
def cancel (r : Run) : Run := { r with isClosed := true }

/-- Cancels it if it has no outcome. -/
def giveUp (r : Run) : Run := if r.isResolved then r else (r.take (.error .cancelled)).2

def close (r : Run) : Run := r.cancel.giveUp

def describe (r : Run) : String :=
  s!"ValidationRun \x7b id: {r.id}, module_root: {r.root}, resolved: {r.isResolved} \x7d"

end Run

end Rerun
