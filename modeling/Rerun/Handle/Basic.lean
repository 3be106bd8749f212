import Rerun.Engine.Basic

/-!
# Handles

A handle owns one machine. A frozen handle refuses every change, and a destroyed one everything. The
handles that ask for content under one token are a family: a copy joins the family of its source,
and a new resolver starts a new one.
-/

namespace Rerun

/-- A machine and who may do what with it. -/
structure Handle where
  machine : Option Instance
  isFrozen : Bool
  family : Option Nat

namespace Handle

def ofInstance (i : Instance) : Handle := ⟨some i, false, none⟩

/-- The machine, which has to be there still. -/
def live (h : Handle) : Except Error Instance :=
  match h.machine with
  | none => .error .destroyed
  | some i => .ok i

/-- The machine, which has to be open to changes. -/
def unfrozen (h : Handle) : Except Error Instance := do
  let i ← h.live
  if h.isFrozen then .error .frozen else return i

def withMachine (h : Handle) (i : Instance) : Handle := { h with machine := some i }

/-- Whether its state is the one at some step: it has taken that many steps, or it halted before. -/
def isValidFor (i : Instance) (requested : UInt64) : Bool :=
  if requested < i.steps then false
  else if i.steps = requested then true
  else i.status.isHalted

/-! ## Running -/

/-- Runs the machine under a deadline that is watched. What the engine reports counts first, then
whether the time ran out. -/
def advance (host : Host) (d : Deadline) (h : Handle)
    (run : Deadline → Instance → Ran Instance × Host) : Ran Handle × Host :=
  match h.unfrozen with
  | .error e => (⟨fail e, d, h⟩, host)
  | .ok i =>
    let (r, host) := run d.watched i
    let d := { d with spent := r.deadline.spent }
    let result : Result Unit :=
      match r.result with
      | .error f => .error f
      | .ok () => if d.isExpired then fail .cancelled else .ok ()
    (⟨result, d, h.withMachine r.machine⟩, host)

def step (host : Host) (d : Deadline) (count : UInt64) (h : Handle) : Ran Handle × Host :=
  h.advance host d fun d i => i.step host count.toNat d

/-- Runs the machine until it halts, some steps at a time, but at least one. Nothing is run if the
time is over before. -/
def stepInChunks (host : Host) (horizon : Nat) (d : Deadline) (chunk : UInt64) (h : Handle) :
    Ran Handle × Host :=
  if d.isExpired then h.advance host d fun d i => (i.atOnce d (.ok ()), host)
  else h.advance host d fun d i =>
    i.stepInChunks (max chunk.toNat 1) (d.remaining horizon + 1) host d

def stepUntilHostIo (host : Host) (horizon : Nat) (d : Deadline) (h : Handle) :
    Ran Handle × Host :=
  h.advance host d fun d i => i.stepUntilHostIo host horizon d

/-! ## Other changes -/

def update (h : Handle) (change : Instance → Result Instance) : Result Handle := do
  let i ← Instance.lift h.unfrozen
  return h.withMachine (← change i)

def setGlobal (h : Handle) (g : GlobalState) : Result Handle :=
  h.update fun i => .ok (i.setGlobal g)

def addMessage (h : Handle) (inbox : Inbox) (msg : Message) : Result Handle :=
  h.update fun i => i.addMessage inbox msg

def restore (host : Host) (path : String) (h : Handle) : Result Handle :=
  h.update fun i => i.restore host path

def save (host : Host) (path : String) (h : Handle) : Result Host := do
  let i ← Instance.lift h.live
  i.save host path

def freeze (h : Handle) : Except Error Handle := do
  let _ ← h.live
  return { h with isFrozen := true }

/-! ## Families -/

/-- A registry after an owner let go of a family. -/
def leave (r : Registry) (family : Option Nat) : Registry :=
  match family with
  | some token => r.release token
  | none => r

/-- A copy, which is not frozen and joins the family. -/
def copy (host : Host) (h : Handle) : Result (Handle × Host) := do
  let i ← Instance.lift h.live
  let i ← i.copy
  match h.family with
  | some token =>
    return (⟨some (i.setContext token), false, some token⟩,
      { host with registry := host.registry.retain token })
  | none => return (⟨some i, false, none⟩, host)

/-- Starts a new family with a resolver. The old one is left afterwards. -/
def setResolver (host : Host) (resolver : Resolver) (h : Handle) :
    Except Error (Nat × Handle × Host) := do
  let i ← h.unfrozen
  let (token, registry) := host.registry.register resolver
  return (token, ⟨some (i.setContext token), h.isFrozen, some token⟩,
    { host with registry := leave registry h.family })

/-- The handle without its machine and family, and what is left of its family. -/
def drop (host : Host) (h : Handle) : Handle × Host :=
  ({ h with machine := none, family := none },
    { host with registry := leave host.registry h.family })

/-- Releases the machine, which works once. -/
def destroy (host : Host) (h : Handle) : Except Error (Handle × Host) := do
  let _ ← h.live
  return h.drop host

end Handle

end Rerun
