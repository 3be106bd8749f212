import Rerun.Node.Basic

/-!
# The history of a node

Everything that can be asked of a node, one operation at a time. An operation is over before the
next one begins; only the builds that it started may outlast it.
-/

namespace Rerun.Node

/-- What can be asked of a node. -/
inductive Op where
  | start
  | disableNative
  | run (root : Digest) (x : Input)
  | runBy (kind : Runner.Kind) (root : Digest) (x : Input)
  | runAll (root : Digest) (xs : List Input)
  | runClosed (root : Digest) (x : Input)
  | runWithin (root : Digest) (x : Input) (ms : Nat)
  | openSession (root : Digest) (x : Input)
  | ask (i : Nat) (question : Session.Ask)
  | closeSession (i : Nat)
  | machines (root : Digest)
  | closeDepot
  | stop

inductive Reply where
  | started (result : Except Error Unit)
  | done
  | run (r : Run)
  | runs (rs : List Run)
  | opened (result : Result Nat)
  | answered (result : Result Session.Reply)
  | absent
  | machines (pair : Option (Except Error MachinePair))

/-- Launches a run that is closed before it starts: the run as it was launched, and as it ended. -/
def runClosed (n : Node) (kind : Runner.Kind) (root : Digest) (x : Input) : Run × Run × Node :=
  let (fresh, n) := n.launch kind root x
  let (run, n) := n.complete kind fresh.close x
  (fresh, run, n)

def perform (n : Node) : Op → Reply × Node
  | .start => let (r, n) := n.start; (.started r, n)
  | .disableNative => (.done, n.disableNative)
  | .run root x => let (r, n) := n.run n.serving root x; (.run r, n)
  | .runBy kind root x => let (r, n) := n.run kind root x; (.run r, n)
  | .runAll root xs => let (rs, n) := n.runAll n.serving root xs; (.runs rs, n)
  | .runClosed root x => let (_, r, n) := n.runClosed n.serving root x; (.run r, n)
  | .runWithin root x ms =>
    let (_, r, n) := n.runWithin n.serving root x ms
    (.run r, n)
  | .openSession root x => let (r, n) := n.openSession root x; (.opened r, n)
  | .ask i question =>
    match n.sessions[i]? with
    | none => (.absent, n)
    | some s => let (r, n) := n.ask i s question; (.answered r, n)
  | .closeSession i =>
    match n.sessions[i]? with
    | none => (.absent, n)
    | some s => (.done, n.closeSession i s)
  | .machines root => let (p, n) := n.machines root; (.machines p, n)
  | .closeDepot => (.done, n.closeDepot)
  | .stop => (.done, n.stop)

def performAll (n : Node) : List Op → List Reply × Node
  | [] => ([], n)
  | op :: rest =>
    let (r, n) := n.perform op
    let (rs, n) := n.performAll rest
    (r :: rs, n)

end Rerun.Node
