import Rerun.Error

/-!
# The cache

Whatever is expensive to build is built once for each module root and then shared. Whoever asks for
a root that is ready gets the value; whoever asks while it is built waits for that build; whoever
asks for a root that is neither starts a build. A build that fails leaves nothing behind, so that
the next request starts another.

The counters are words of 64 bits, which are kept as numbers here. None of them counts more than the
requests that were made, so the two agree as long as these are fewer than `2 ^ 64`.
-/

namespace Rerun

inductive Build.Phase (α : Type) where
  | inFlight
  | ended (outcome : Except Error α)
  /-- Given up before it ran. -/
  | dropped

/-- A build of the value for a module root. -/
structure Build (α : Type) where
  root : Digest
  phase : Build.Phase α

namespace Build

variable {α : Type}

/-- The outcome of work that ended. A panic is a failed build, and work without an end has no
outcome. -/
def outcomeOf (root : Digest) : Result α → Option (Except Error α)
  | .ok a => some (.ok a)
  | .error (.error e) => some (.error e)
  | .error (.panic _) => some (.error (.buildFailed root "machine build panicked"))
  | .error .endless => none

/-- What those who wait for a build are told, once there is something to tell. -/
def outcome? (b : Build α) : Option (Except Error α) :=
  match b.phase with
  | .inFlight => none
  | .ended outcome => some outcome
  | .dropped => some (.error (.buildFailed b.root "machine build aborted"))

end Build

namespace Cache

inductive Entry (α : Type) where
  | building (n : Nat)
  | ready (value : α)

/-- What a request gets at once: the value, or the number of the build to wait for. -/
inductive Ticket (α : Type) where
  | value (a : α)
  | build (n : Nat)

structure Stats where
  hits : Nat
  joins : Nat
  builds : Nat
  failures : Nat
  cached : Nat
  deriving DecidableEq

end Cache

structure Cache (α : Type) where
  entries : List (Digest × Cache.Entry α) := []
  /-- Every build that was started; its place is its number. -/
  builds : List (Build α) := []
  hits : Nat := 0
  /-- Requests for a root that was being built. -/
  joins : Nat := 0
  failures : Nat := 0

namespace Cache

variable {α : Type}

def entry? (c : Cache α) (root : Digest) : Option (Entry α) := c.entries.lookup root

def ready? (c : Cache α) (root : Digest) : Option α :=
  match c.entry? root with
  | some (.ready a) => some a
  | _ => none

def isBuilding (c : Cache α) (root : Digest) : Bool :=
  match c.entry? root with
  | some (.building _) => true
  | _ => false

/-- The number of the build of a root, while it is in flight. -/
def building? (c : Cache α) (root : Digest) : Option Nat :=
  match c.entry? root with
  | some (.building n) => some n
  | _ => none

/-- The roots that are ready, in the order in which they came to be. -/
def readyRoots (c : Cache α) : List Digest :=
  c.entries.filterMap fun (root, e) =>
    match e with
    | .ready _ => some root
    | .building _ => none

def stats (c : Cache α) : Stats :=
  ⟨c.hits, c.joins, c.builds.length, c.failures, c.readyRoots.length⟩

/-! ## Changes -/

def without (c : Cache α) (root : Digest) : List (Digest × Entry α) :=
  c.entries.filter fun (r, _) => r ≠ root

/-- The entries with one for a root. -/
def with_ (c : Cache α) (root : Digest) (e : Entry α) : List (Digest × Entry α) :=
  c.without root ++ [(root, e)]

/-- Asks for the value of a root: a hit, a join, or the start of a build. -/
def request (c : Cache α) (root : Digest) : Ticket α × Cache α :=
  match c.entry? root with
  | some (.ready a) => (.value a, { c with hits := c.hits + 1 })
  | some (.building n) => (.build n, { c with joins := c.joins + 1 })
  | none =>
    let n := c.builds.length
    (.build n, { c with
      entries := c.with_ root (.building n)
      builds := c.builds ++ [⟨root, .inFlight⟩] })

def setPhase (c : Cache α) (n : Nat) (b : Build α) (phase : Build.Phase α) : List (Build α) :=
  c.builds.set n { b with phase }

/-- A build that is in flight ends. A value is kept, and a failure leaves nothing. -/
def finish (c : Cache α) (n : Nat) (outcome : Except Error α) : Cache α :=
  match c.builds[n]? with
  | some b =>
    match b.phase, outcome with
    | .inFlight, .ok a =>
      { c with
        entries := c.with_ b.root (.ready a)
        builds := c.setPhase n b (.ended (.ok a)) }
    | .inFlight, .error e =>
      { c with
        entries := c.without b.root
        builds := c.setPhase n b (.ended (.error e))
        failures := c.failures + 1 }
    | _, _ => c
  | none => c

/-- A build that is in flight is given up before it ran, which takes its mark away. -/
def drop (c : Cache α) (n : Nat) : Cache α :=
  match c.builds[n]? with
  | some b =>
    match b.phase with
    | .inFlight =>
      { c with
        entries := if c.isBuilding b.root then c.without b.root else c.entries
        builds := c.setPhase n b .dropped }
    | _ => c
  | none => c

/-- What the holder of a ticket is told, once there is something to tell. -/
def answer? (c : Cache α) : Ticket α → Option (Except Error α)
  | .value a => some (.ok a)
  | .build n => c.builds[n]?.bind Build.outcome?

end Cache

end Rerun
