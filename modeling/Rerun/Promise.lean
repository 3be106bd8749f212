import Rerun.Error

/-!
# Promises

A promise is a place for one outcome. The first outcome that is put there stays; later ones are
refused. Whoever waits for it gets the outcome, or gives up after a time without changing anything.
-/

namespace Rerun

/-- A place for one outcome. -/
structure Promise (α : Type) where
  outcome : Option (Except Error α) := none

namespace Promise

variable {α : Type}

def isResolved (p : Promise α) : Bool := p.outcome.isSome

/-- Puts an outcome in its place, and tells whether it was accepted. -/
def resolve (p : Promise α) (outcome : Except Error α) : Bool × Promise α :=
  match p.outcome with
  | some _ => (false, p)
  | none => (true, ⟨some outcome⟩)

/-- The outcome for someone who waits. Without one, those with a limited patience give up, and the
others wait for ever. -/
def await (p : Promise α) (limited : Bool) : Result α :=
  match p.outcome, limited with
  | some (.ok a), _ => .ok a
  | some (.error e), _ => fail e
  | none, true => fail .cancelled
  | none, false => .error .endless

@[simp] theorem isResolved_resolve (p : Promise α) (o : Except Error α) :
    (p.resolve o).2.isResolved = true := by
  cases p with | mk x => cases x <;> rfl

theorem resolve_of_isResolved {p : Promise α} (h : p.isResolved = true) (o : Except Error α) :
    p.resolve o = (false, p) := by
  cases p with
  | mk x =>
    cases x with
    | none => simp [isResolved] at h
    | some _ => rfl

end Promise

/-! ## Shared promises -/

/-- Someone who waits in the background. -/
structure Waiter where
  owner : Nat
  patience : Option Nat
  hasGivenUp : Bool := false

/-- A number of promises, each with one owner or more, and those who wait in the background. -/
structure Promises (α : Type) where
  slots : List (Promise α) := [{}]
  /-- The slot of each owner. -/
  owners : List Nat := [0]
  waiters : List Waiter := []

namespace Promises

variable {α : Type}

def promise (s : Promises α) (owner : Nat) : Promise α :=
  ((s.owners[owner]?).bind (s.slots[·]?)).getD {}

def create (s : Promises α) : Nat × Promises α :=
  (s.owners.length,
    { s with slots := s.slots ++ [{}], owners := s.owners ++ [s.slots.length] })

def share (s : Promises α) (owner : Nat) : Nat × Promises α :=
  (s.owners.length, { s with owners := s.owners ++ [s.owners[owner]?.getD 0] })

def resolve (s : Promises α) (owner : Nat) (outcome : Except Error α) : Bool × Promises α :=
  match s.owners[owner]? with
  | none => (false, s)
  | some slot =>
    let (accepted, p) := (s.promise owner).resolve outcome
    (accepted, { s with slots := s.slots.set slot p })

/-- Someone who waits after some milliseconds. It gives up when its patience ends and there still is
no outcome. -/
def passFor (s : Promises α) (ms : Nat) (w : Waiter) : Waiter :=
  match w.patience with
  | some patience =>
    if w.hasGivenUp || (s.promise w.owner).isResolved then w
    else { w with patience := some (patience - ms), hasGivenUp := patience ≤ ms }
  | none => w

def pass (s : Promises α) (ms : Nat) : Promises α :=
  { s with waiters := s.waiters.map (s.passFor ms) }

/-- The outcome for someone who waits here. It takes time only where there is no outcome yet. -/
def await (s : Promises α) (owner : Nat) (patience : Option Nat) : Result α × Promises α :=
  let p := s.promise owner
  (p.await patience.isSome, if p.isResolved then s else s.pass (patience.getD 0))

def wait (s : Promises α) (owner : Nat) (patience : Option Nat) : Promises α :=
  { s with waiters := s.waiters ++ [s.passFor 0 { owner, patience }] }

/-- What someone is told who waited in the background. -/
def told (s : Promises α) (w : Waiter) : Result α :=
  if w.hasGivenUp then fail .cancelled else (s.promise w.owner).await w.patience.isSome

/-- The outcomes of all who wait, in the order in which they began. -/
def join (s : Promises α) : List (Result α) × Promises α :=
  (s.waiters.map s.told, { s with waiters := [] })

end Promises

end Rerun
