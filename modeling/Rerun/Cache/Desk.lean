import Rerun.Cache.Basic

/-!
# Many callers

A desk is a loader with all its callers: the cache, and everyone who asked it for a value. Requests,
the ends of builds, the word that goes out to those who wait, and the delivery of answers, in any
order. A caller keeps the ticket that its request got until the answer is delivered. The end of a
build changes the cache at once, and whoever waits for it hears of it later, so that the root may
have been asked for again in the meantime.
-/

namespace Rerun.Cache

structure Caller (α : Type) where
  root : Digest
  ticket : Ticket α
  answer : Option (Except Error α) := none

/-- A cache and everyone who asked it, in the order of their requests. -/
structure Desk (α : Type) where
  cache : Cache α := {}
  callers : List (Caller α) := []
  /-- The builds whose outcome went out to those who wait for them. -/
  told : List Nat := []

namespace Desk

variable {α : Type}

inductive Event (α : Type) where
  | request (root : Digest)
  | finish (n : Nat) (result : Result α)
  | drop (n : Nat)
  | tell (n : Nat)
  | deliver (i : Nat)

/-- What the holder of a ticket can have heard by now. -/
def heard? (d : Desk α) : Ticket α → Option (Except Error α)
  | .value a => some (.ok a)
  | .build n => if n ∈ d.told then d.cache.answer? (.build n) else none

/-- The caller with the answer that it has heard; what was delivered stays. -/
def Caller.served (d : Desk α) (k : Caller α) : Caller α :=
  match k.answer with
  | some _ => k
  | none => { k with answer := d.heard? k.ticket }

def finish (d : Desk α) (n : Nat) (result : Result α) : Desk α :=
  match d.cache.builds[n]? with
  | none => d
  | some b =>
    match Build.outcomeOf b.root result with
    | none => d
    | some outcome => { d with cache := d.cache.finish n outcome }

/-- The outcome of a build goes out, if there is one. -/
def tell (d : Desk α) (n : Nat) : Desk α :=
  if (d.cache.answer? (.build n)).isSome then { d with told := n :: d.told } else d

def step (d : Desk α) : Event α → Desk α
  | .request root =>
    let (ticket, cache) := d.cache.request root
    { d with cache, callers := d.callers ++ [⟨root, ticket, none⟩] }
  | .finish n result => d.finish n result
  | .drop n => { d with cache := d.cache.drop n }
  | .tell n => d.tell n
  | .deliver i => { d with callers := d.callers.modify i (Caller.served d) }

def steps (d : Desk α) (events : List (Event α)) : Desk α := events.foldl step d

def nextCaller (d : Desk α) : Nat := d.callers.length

def requests (d : Desk α) (root : Digest) (count : Nat) : Desk α :=
  (List.replicate count ()).foldl (fun d _ => d.step (.request root)) d

/-- The build of a root that is in flight ends, and those who wait for it hear of it. -/
def finishRoot (d : Desk α) (root : Digest) (result : Result α) : Desk α :=
  match d.cache.building? root with
  | some n => d.steps [.finish n result, .tell n]
  | none => d

/-- What a caller was given, or could be given now. -/
def answer? (d : Desk α) (i : Nat) : Option (Except Error α) :=
  ((d.step (.deliver i)).callers[i]?).bind (·.answer)

/-- Asks for a root and waits. The build that it waits for, whoever started it, ends with
`result`. -/
def get (d : Desk α) (root : Digest) (result : Result α) : Option (Except Error α) × Desk α :=
  let i := d.nextCaller
  let d := (d.step (.request root)).finishRoot root result
  (d.answer? i, d.step (.deliver i))

/-- Asks for a root where no build can be started: a build that would have to be started is given up
at once. Whether that happened comes with the answer. -/
def getWithoutBuild (d : Desk α) (root : Digest) :
    Bool × Option (Except Error α) × Desk α :=
  let i := d.nextCaller
  let started := (d.cache.entry? root).isNone
  let n := d.cache.builds.length
  let d := d.step (.request root)
  if started then (true, none, d.steps [.drop n, .tell n]) else (false, d.answer? i, d)

end Desk

end Rerun.Cache
