import Rerun.Handle.Op
import Rerun.Session.Basic

/-!
# Many handles

A bench is a number of machine handles of one process, with the sessions on copies of them: the
engine's files, the registry of resolvers and all handles there are. Everything that can be done
with them is done one operation at a time. Handles and sessions are numbered in the order in which
they come into being. An operation changes at most the handle or the session that it names, what all
of them share, and the lists by a new member at their end.
-/

namespace Rerun

/-- Handles, sessions, and what they share. -/
structure Bench where
  host : Host
  handles : List Handle
  sessions : List Session := []

namespace Bench

def empty (files : Files) : Bench := ⟨⟨files, .empty, none⟩, [], []⟩

inductive Op where
  | load (path : Bytes)
  | copy (n : Nat)
  | on (n : Nat) (op : Handle.Op)
  /-- Drops a handle, whatever its state. -/
  | drop (n : Nat)
  | run (n : Nat) (x : Input) (d : Deadline) (way : Handle.Way)
  | openSession (n : Nat) (root : Digest) (x : Input) (stepChunk : UInt64)
  | ask (n : Nat) (d : Deadline) (question : Session.Ask)
  | closeSession (n : Nat)

inductive Reply where
  | created (n : Nat)
  | handle (reply : Handle.Reply)
  | ran (g : GlobalState)
  | opened (n : Nat)
  | answered (reply : Session.Reply)
  | done
  | absent

def add (b : Bench) (h : Handle) : Result Reply × Bench :=
  (.ok (.created b.handles.length), { b with handles := b.handles ++ [h] })

def onHandle (b : Bench) (n : Nat) (f : Handle → Result Reply × Bench) : Result Reply × Bench :=
  match b.handles[n]? with
  | none => (.ok .absent, b)
  | some h => f h

def onSession (b : Bench) (n : Nat) (f : Session → Result Reply × Bench) : Result Reply × Bench :=
  match b.sessions[n]? with
  | none => (.ok .absent, b)
  | some s => f s

def openSession (b : Bench) (h : Handle) (root : Digest) (x : Input) (stepChunk : UInt64) :
    Result Reply × Bench :=
  match Session.prepare b.host h x with
  | (.error f, host) => (.error f, { b with host })
  | (.ok prepared, host) =>
    match Session.ofPrepared host root prepared stepChunk with
    | (.error f, host) => (.error f, { b with host })
    | (.ok s, host) =>
      (.ok (.opened b.sessions.length), { b with host, sessions := b.sessions ++ [s] })

def perform (backend : Backend) (horizon : Nat) (b : Bench) : Op → Result Reply × Bench
  | .load path =>
    match backend.load b.host.files path with
    | .ok i => b.add (.ofInstance i)
    | .error f => (.error f, b)
  | .copy n => b.onHandle n fun h =>
    match h.copy b.host with
    | .ok (h, host) => { b with host }.add h
    | .error f => (.error f, b)
  | .on n op => b.onHandle n fun h =>
    let done := h.perform horizon b.host op
    (done.reply.map .handle, { b with host := done.host, handles := b.handles.set n done.handle })
  | .drop n => b.onHandle n fun h =>
    let (h, host) := h.drop b.host
    (.ok .done, { b with host, handles := b.handles.set n h })
  | .run n x d way => b.onHandle n fun h =>
    let finished := h.runCopy b.host x d (way.advance horizon)
    (finished.result.map .ran, { b with host := finished.host })
  | .openSession n root x stepChunk => b.onHandle n fun h => b.openSession h root x stepChunk
  | .ask n d question => b.onSession n fun s =>
    let a := s.job b.host horizon d question
    (a.result.map .answered, { b with host := a.host, sessions := b.sessions.set n a.session })
  | .closeSession n => b.onSession n fun s =>
    let (s, host) := s.close b.host
    (.ok .done, { b with host, sessions := b.sessions.set n s })

def performAll (backend : Backend) (horizon : Nat) (b : Bench) (ops : List Op) : Bench :=
  ops.foldl (fun b op => (b.perform backend horizon op).2) b

/-- Everyone who may own a token: the handles, and the machines of the sessions. -/
def everyHandle (b : Bench) : List Handle :=
  b.handles ++ b.sessions.flatMap fun s => [s.prepared, s.cursor]

end Bench

end Rerun
