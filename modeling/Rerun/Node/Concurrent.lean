import Rerun.Node.History

/-!
# A node with many runs in flight

Launches of runs, the tasks that carry them out, those who close them, and whatever else is asked of
their node, in any order. A task waits three times: for its turn to ask for its machines, for the
machines, and for a worker. Each time it looks whether its run was cancelled first, and only then
for what it waits for; these are two events, and so the two do not have to fit each other. Who stops
a runner cancels its runs first and closes its pool after that. A task that looked in between at the
one, and afterwards at the other, is told that the pool is closed.

A copy of a machine goes on in one event. Nobody else gets at it meanwhile, and all that it asks of
anybody is what is found under its token.
-/

namespace Rerun.Node

def changeRunner (n : Node) (kind : Runner.Kind) (f : Runner → Runner) : Node :=
  match kind with
  | .interpreter => { n with interpreter := f n.interpreter }
  | .native => { n with native := n.native.map f }

/-- How far a task is. It is `asked` from when it asked for its machines until it hears of them,
`equipped` with them until it has a worker, and then has a `copied` machine with the input there. -/
inductive Task.Stage where
  | launched
  | asked (ticket : Cache.Ticket MachinePair)
  | equipped (pair : MachinePair)
  | copied (h : Handle)
  | ended (result : Result GlobalState)
  | delivered

/-- A run and the work on it, by a runner of some kind. -/
structure Task where
  kind : Runner.Kind
  input : Input
  run : Run
  /-- Whether its runner was started by the time of the launch. -/
  wasStarted : Bool
  stage : Task.Stage := .launched
  /-- Whether it looked if its run was cancelled, and goes on to look for what it waits for. -/
  looked : Bool := false

def Task.hasWorker (f : Task) : Bool :=
  match f.stage with
  | .copied _ => true
  | _ => false

/-- A node, the tasks of all runs that were launched there, and the runners that someone was
given. -/
structure Concurrent where
  node : Node
  tasks : List Task := []
  held : List Runner.Kind := []

namespace Concurrent

inductive Happening where
  /-- It looks whether its run was cancelled. -/
  | look
  | ask
  /-- It looks whether its machines are there. -/
  | hear
  /-- The limit on its run ends before it has machines. -/
  | timeOut
  /-- It looks for a worker, and makes a copy of a machine with its input there. -/
  | acquire
  /-- The copy goes on as long as a deadline lets it, and is dropped. -/
  | work (d : Deadline)
  | deliver (looks : Nat)
  | close

inductive Event where
  /-- Something is asked of the node, and done before anything else happens. -/
  | perform (op : Op)
  /-- Someone is given the runner that takes new runs. -/
  | choose
  | launch (kind : Runner.Kind) (root : Digest) (x : Input)
  | on (i : Nat) (h : Happening)
  | goOn (pause : Option Nat) (n : Nat)
  /-- Someone who stops a runner cancels its runs. -/
  | cancel (kind : Runner.Kind)
  /-- Someone who stopped a runner closes its pool. -/
  | shut (kind : Runner.Kind)
  | store (files : Files)

/-- The runner of a task, as the task sees it. -/
def runner (t : Concurrent) (f : Task) : Runner :=
  let r := t.node.runner f.kind
  { r with isStarted := f.wasStarted, isStopped := r.isStopped || f.run.isClosed }

/-- How many workers of a kind of runner are taken. -/
def busy (t : Concurrent) (kind : Runner.Kind) : Nat :=
  t.tasks.countP fun f => f.kind = kind && f.hasWorker

def atSite (t : Concurrent) (site : Site) : Concurrent := { t with node := { t.node with site } }

def setTask (t : Concurrent) (i : Nat) (f : Task) : Concurrent :=
  { t with tasks := t.tasks.set i f }

def move (t : Concurrent) (i : Nat) (f : Task) (stage : Task.Stage) (looked : Bool := false) :
    Concurrent :=
  t.setTask i { f with stage, looked }

def settle (t : Concurrent) (i : Nat) (f : Task) (host : Host) (result : Result GlobalState) :
    Concurrent :=
  let (result, site) := { t.node.site with host }.settle result
  (t.atSite site).move i f (.ended result)

def look (t : Concurrent) (i : Nat) (f : Task) (reason : Option Error) : Concurrent :=
  match reason with
  | some e => t.move i f (.ended (fail e))
  | none => t.move i f f.stage true

/-- What happens to a task. What does not fit its stage changes nothing. -/
def handle (t : Concurrent) (i : Nat) (f : Task) : Happening → Concurrent
  | .look =>
    match f.stage with
    | .launched => t.look i f ((t.runner f).refusal false)
    | .asked _ | .equipped _ =>
      t.look i f (if (t.runner f).isStopped then some .cancelled else none)
    | _ => t
  | .ask =>
    match f.stage, f.looked with
    | .launched, true =>
      let (ticket, site) := t.node.site.request f.run.root
      (t.atSite site).move i f (.asked ticket) true
    | _, _ => t
  | .hear =>
    match f.stage, f.looked with
    | .asked ticket, true =>
      match t.node.site.depot.cache.answer? ticket with
      | none => t.move i f f.stage
      | some (.error e) => t.move i f (.ended (fail e))
      | some (.ok pair) => t.move i f (.equipped pair)
    | _, _ => t
  | .timeOut =>
    match f.stage, f.looked with
    | .launched, true | .asked _, true =>
      if (Config.limit? (t.runner f).timeoutMs).isSome then t.move i f (.ended (fail .cancelled))
      else t
    | _, _ => t
  | .acquire =>
    match f.stage, f.looked with
    | .equipped pair, true =>
      match (t.runner f).pool.refusal false with
      | some e => t.move i f (.ended (fail e))
      | none =>
        if t.busy f.kind < (t.runner f).pool.size then
          match Session.prepare t.node.site.host ((t.runner f).source pair) f.input with
          | (.error e, host) => t.settle i f host (.error e)
          | (.ok h, host) => (t.atSite { t.node.site with host }).move i f (.copied h)
        else t.move i f f.stage
    | _, _ => t
  | .work d =>
    match f.stage with
    | .copied h =>
      let site := t.node.site
      let finished := h.finish site.host d ((t.runner f).way.advance site.clock.horizon)
      match finished.result with
      | .error .endless => t
      | result => t.settle i f finished.host result
    | _ => t
  | .deliver looks =>
    match f.stage with
    | .ended result =>
      let (run, site) := Runner.deliver t.node.site f.run looks result
      (t.atSite site).setTask i { f with run, stage := .delivered }
    | _ => t
  | .close => t.setTask i { f with run := f.run.close }

/-- Whether someone can ask an operation of the node: nobody uses a runner that was not given
out. -/
def holds (t : Concurrent) : Op → Bool
  | .runBy kind _ _ => t.held.contains kind
  | _ => true

/-- What happens next. What does not fit changes nothing. -/
def step (t : Concurrent) : Event → Concurrent
  | .perform op => if t.holds op then { t with node := (t.node.perform op).2 } else t
  | .choose => { t with held := t.node.serving :: t.held }
  | .launch kind root x =>
    if t.held.contains kind then
      let wasStarted := (t.node.runner kind).isStarted
      let (run, node) := t.node.launch kind root x
      { t with node, tasks := t.tasks ++ [{ kind, input := x, run, wasStarted }] }
    else t
  | .on i h =>
    match t.tasks[i]? with
    | none => t
    | some f => t.handle i f h
  | .goOn pause n => t.atSite (t.node.site.goOn pause n).2
  | .cancel kind =>
    { t with node := t.node.changeRunner kind fun r => { r with isStopped := true } }
  | .shut kind =>
    { t with node := t.node.changeRunner kind fun r =>
      if r.isStopped then { r with pool := r.pool.close } else r }
  | .store files =>
    t.atSite { t.node.site with host := { t.node.site.host with files } }

def steps (t : Concurrent) (events : List Event) : Concurrent := events.foldl step t

end Concurrent

end Rerun.Node
