import Rerun.Handle.Basic

/-!
# Operations on a handle

Everything that can be asked of one handle. An operation ends with an answer or a failure, and
changes at most the handle, the files and the resolvers.
-/

namespace Rerun

namespace Handle

inductive Op where
  | step (d : Deadline) (count : UInt64)
  | stepInChunks (d : Deadline) (chunk : UInt64)
  | stepUntilHostIo (d : Deadline)
  | hash
  | root
  | global
  | steps
  | status
  | isRunning
  | isErrored
  | token
  | isFrozen
  | isDestroyed
  | validFor (requested : UInt64)
  | proof
  | describe (id : String)
  | setGlobal (g : GlobalState)
  | addMessage (inbox : Inbox) (msg : Message)
  | save (path : String)
  | restore (path : String)
  | setResolver (resolver : Resolver)
  | freeze
  | destroy

inductive Reply where
  | done
  | digest (d : Digest)
  | global (g : GlobalState)
  | number (n : UInt64)
  | status (s : Status)
  | bool (b : Bool)
  | token (t : Option Nat)
  | bytes (bs : Bytes)
  | text (s : String)

/-- A line that tells a handle's state; the handle goes by the name `id`. -/
def describe (h : Handle) (id : String) : String :=
  let destroyed := h.machine.isNone
  s!"MachineHandle \x7b id: {id}, frozen: {h.isFrozen}, destroyed: {destroyed} \x7d"

/-- How an operation on one handle ends. -/
structure Done where
  reply : Result Reply
  host : Host
  handle : Handle

def reading (host : Host) (h : Handle) (f : Instance → Reply) : Done :=
  ⟨Instance.lift (h.live.map f), host, h⟩

/-- An operation that changes the machine, if it succeeds. -/
def changing (host : Host) (h : Handle) (result : Result Handle) : Done :=
  match result with
  | .ok h => ⟨.ok .done, host, h⟩
  | .error f => ⟨.error f, host, h⟩

def running (r : Ran Handle × Host) : Done := ⟨r.1.result.map fun _ => .done, r.2, r.1.machine⟩

def perform (horizon : Nat) (host : Host) (h : Handle) : Op → Done
  | .step d count => running (h.step host d count)
  | .stepInChunks d chunk => running (h.stepInChunks host horizon d chunk)
  | .stepUntilHostIo d => running (h.stepUntilHostIo host horizon d)
  | .hash => h.reading host fun i => .digest i.hash
  | .root => h.reading host fun i => .digest i.root
  | .global => h.reading host fun i => .global i.global
  | .steps => h.reading host fun i => .number i.steps
  | .status => h.reading host fun i => .status i.status
  | .isRunning => h.reading host fun i => .bool (i.status = .running)
  | .isErrored => h.reading host fun i => .bool (i.status = .errored)
  | .token => h.reading host fun _ => .token h.family
  | .isFrozen => h.reading host fun _ => .bool h.isFrozen
  | .isDestroyed => ⟨.ok (.bool h.machine.isNone), host, h⟩
  | .validFor requested => h.reading host fun i => .bool (isValidFor i requested)
  | .proof => h.reading host fun i => .bytes i.proof
  | .describe id => ⟨.ok (.text (h.describe id)), host, h⟩
  | .setGlobal g => h.changing host (h.setGlobal g)
  | .addMessage inbox msg => h.changing host (h.addMessage inbox msg)
  | .save path =>
    match h.save host path with
    | .ok host => ⟨.ok .done, host, h⟩
    | .error f => ⟨.error f, host, h⟩
  | .restore path => h.changing host (h.restore host path)
  | .setResolver resolver =>
    match h.setResolver host resolver with
    | .ok (token, h, host) => ⟨.ok (.token (some token)), host, h⟩
    | .error e => ⟨fail e, host, h⟩
  | .freeze => h.changing host (Instance.lift h.freeze)
  | .destroy =>
    match h.destroy host with
    | .ok (h, host) => ⟨.ok .done, host, h⟩
    | .error e => ⟨fail e, host, h⟩

end Handle

end Rerun
