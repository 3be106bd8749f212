import Rerun.Proofs.Handle.Family
import Rerun.Session.Basic

/-!
# Operations as moves

The moves that each operation on a handle comes down to (`perform_moves`), and those of the runs and
sessions on copies of it. A run leaves nothing of its copy behind, however it ends
(`runCopy_moves`).
-/

namespace Rerun

namespace Handle

/-! ## Running -/

/-- A call left the handle in its family, and of what all machines share everything but the slot. -/
structure Spared (h : Handle) (host : Host) (r : Ran Handle × Host) : Prop where
  keeps : h.Keeps r.1.machine
  host : ∃ slot, r.2 = { host with slot }

theorem Spared.registry {h : Handle} {host : Host} {r : Ran Handle × Host}
    (hs : h.Spared host r) : r.2.registry = host.registry := by
  obtain ⟨slot, hslot⟩ := hs.host
  rw [hslot]

theorem Spared.moves {h : Handle} {host : Host} {r : Ran Handle × Host} (hs : h.Spared host r) :
    Moves host.registry [h] [] r.2.registry [r.1.machine] := by
  rw [hs.registry]
  exact Moves.rest.change hs.keeps

theorem keeps_withMachine {h : Handle} {i i' : Instance} (hm : h.machine = some i)
    (hc : i'.context = i.context) : h.Keeps (h.withMachine i') where
  family := rfl
  context := by simp [withMachine, hm, hc]

theorem advance_spared {host : Host} {run : Deadline → Instance → Ran Instance × Host}
    (hrun : ∀ d i, Instance.Spared i host (run d i)) (d : Deadline) (h : Handle) :
    h.Spared host (h.advance host d run) := by
  unfold advance
  cases hu : h.unfrozen with
  | error e => exact ⟨.refl h, host.slot, rfl⟩
  | ok i =>
    have hspared := hrun d.watched i
    exact ⟨keeps_withMachine (unfrozen_eq_ok hu).1 hspared.context, hspared.host⟩

theorem step_spared (host : Host) (d : Deadline) (count : UInt64) (h : Handle) :
    h.Spared host (h.step host d count) :=
  advance_spared (fun d i => i.step_spared host count.toNat d) d h

theorem stepInChunks_spared (host : Host) (horizon : Nat) (d : Deadline) (chunk : UInt64)
    (h : Handle) : h.Spared host (h.stepInChunks host horizon d chunk) := by
  unfold stepInChunks
  split
  · exact advance_spared (fun d i => .atOnce i host d _) d h
  · exact advance_spared (fun d i => i.stepInChunks_spared _ _ host d) d h

theorem stepUntilHostIo_spared (host : Host) (horizon : Nat) (d : Deadline) (h : Handle) :
    h.Spared host (h.stepUntilHostIo host horizon d) :=
  advance_spared (fun d i => i.stepUntilHostIo_spared host horizon d) d h

theorem Way.advance_spared (way : Way) (horizon : Nat) (host : Host) (d : Deadline) (h : Handle) :
    h.Spared host (way.advance horizon host d h) := by
  cases way with
  | inChunks chunk => exact stepInChunks_spared host horizon d chunk h
  | atOnce => exact step_spared host d allSteps h

/-! ## Changing -/

theorem update_keeps {h h' : Handle} {change : Instance → Result Instance}
    (hchange : ∀ i i', change i = .ok i' → i'.context = i.context)
    (hu : h.update change = .ok h') : h.Keeps h' := by
  obtain ⟨i, hi, hu⟩ := Result.of_bind hu
  obtain ⟨i', hi', hu⟩ := Result.of_bind hu
  cases hu
  exact keeps_withMachine (unfrozen_eq_ok (Instance.lift_eq_ok hi)).1 (hchange i i' hi')

theorem setGlobal_keeps {h h' : Handle} {g : GlobalState} (hs : h.setGlobal g = .ok h') :
    h.Keeps h' := by
  refine update_keeps ?_ hs
  rintro i _ ⟨⟩
  exact i.setGlobal_context g

theorem addMessage_keeps {h h' : Handle} {inbox : Inbox} {msg : Message}
    (ha : h.addMessage inbox msg = .ok h') : h.Keeps h' :=
  update_keeps (fun _ _ => Instance.addMessage_context) ha

theorem restore_keeps {h h' : Handle} {host : Host} {path : String}
    (hr : h.restore host path = .ok h') : h.Keeps h' :=
  update_keeps (fun _ _ => Instance.restore_context) hr

theorem freeze_keeps {h h' : Handle} (hf : h.freeze = .ok h') : h.Keeps h' := by
  obtain ⟨i, -, hf⟩ := Result.of_bind hf
  cases hf
  exact ⟨rfl, rfl⟩

theorem changing_moves {host : Host} {h : Handle} {result : Result Handle}
    (hk : ∀ h', result = .ok h' → h.Keeps h') :
    Moves host.registry [h] [] (h.changing host result).host.registry
      [(h.changing host result).handle] := by
  cases result with
  | error f => exact .rest
  | ok h' => exact Moves.rest.change (hk h' rfl)

theorem save_registry {h : Handle} {host host' : Host} {path : String}
    (hs : h.save host path = .ok host') : host'.registry = host.registry := by
  obtain ⟨i, -, hs⟩ := Result.of_bind hs
  obtain ⟨files, rfl⟩ := Instance.save_host hs
  rfl

theorem destroy_eq_ok {h : Handle} {host : Host} {r : Handle × Host}
    (hd : h.destroy host = .ok r) : r = h.drop host := by
  obtain ⟨i, -, hd⟩ := Result.of_bind hd
  cases hd
  rfl

theorem drop_moves (h : Handle) (host : Host) :
    Moves host.registry [h] [] (h.drop host).2.registry [(h.drop host).1] := Moves.rest.drop

/-- The tokens that the answer to an operation tells of as new. -/
def given (op : Op) (reply : Result Reply) : List Nat :=
  match op, reply with
  | .setResolver _, .ok (.token (some t)) => [t]
  | _, _ => []

/-- Every operation on a handle is at most one move, and gives out no token but the one that it
tells of. -/
theorem perform_moves (horizon : Nat) (host : Host) (h : Handle) (op : Op) :
    Moves host.registry [h] (given op (h.perform horizon host op).reply)
      (h.perform horizon host op).host.registry [(h.perform horizon host op).handle] := by
  cases op with
  | step d count => exact (h.step_spared host d count).moves
  | stepInChunks d chunk => exact (h.stepInChunks_spared host horizon d chunk).moves
  | stepUntilHostIo d => exact (h.stepUntilHostIo_spared host horizon d).moves
  | setGlobal g => exact changing_moves fun _ => setGlobal_keeps
  | addMessage inbox msg => exact changing_moves fun _ => addMessage_keeps
  | restore path => exact changing_moves fun _ => restore_keeps
  | freeze => exact changing_moves fun _ hf => freeze_keeps (Instance.lift_eq_ok hf)
  | save path =>
    unfold perform
    dsimp only
    cases hs : h.save host path with
    | error f => exact .rest
    | ok host' =>
      dsimp only
      rw [save_registry hs]
      exact .rest
  | setResolver resolver =>
    unfold perform
    dsimp only
    cases hs : h.setResolver host resolver with
    | error e => exact .rest
    | ok r =>
      obtain ⟨token, h', host'⟩ := r
      exact Moves.rest.setResolver hs
  | destroy =>
    unfold perform
    dsimp only
    cases hd : h.destroy host with
    | error e => exact .rest
    | ok r =>
      obtain rfl := destroy_eq_ok hd
      exact h.drop_moves host
  | _ => exact .rest

/-! ## Runs on copies -/

theorem addMessages_keeps {inbox : Inbox} {msgs : List Message} {h h' : Handle}
    (ha : h.addMessages inbox msgs = .ok h') : h.Keeps h' := by
  induction msgs generalizing h with
  | nil =>
    cases ha
    exact .refl _
  | cons msg msgs ih =>
    unfold addMessages at ha
    cases hm : h.addMessage inbox msg with
    | error f => rw [hm] at ha; cases ha
    | ok h'' =>
      rw [hm] at ha
      exact (addMessage_keeps hm).trans (ih ha)

/-- An input comes with a resolver. -/
theorem supply_moves {host host' : Host} {x : Input} {h h' : Handle}
    (hs : h.supply host x = .ok (h', host')) :
    ∃ token, Moves host.registry [h] [token] host'.registry [h'] := by
  obtain ⟨h₁, hg, hs⟩ := Result.of_bind hs
  obtain ⟨h₂, hm, hs⟩ := Result.of_bind hs
  obtain ⟨h₃, hd, hs⟩ := Result.of_bind hs
  obtain ⟨⟨token, h₄, host₄⟩, hr, hs⟩ := Result.of_bind hs
  cases hs
  have hkeeps := ((setGlobal_keeps hg).trans (addMessages_keeps hm)).trans (addMessages_keeps hd)
  exact ⟨token, (Moves.rest.change hkeeps).setResolver (Instance.lift_eq_ok hr)⟩

theorem copy_moves {h h' : Handle} {host host' : Host} (hc : h.copy host = .ok (h', host')) :
    Moves host.registry [h] [] host'.registry [h', h] := Moves.rest.copy hc

/-- Dropping a handle that is in nobody's reach any more. -/
theorem Moves.discard {r : Registry} {hs hs' : List Handle} {log : List Nat} {host : Host}
    {h : Handle} (m : Moves r hs log host.registry (h :: hs')) :
    Moves r hs log (h.drop host).2.registry hs' :=
  m.drop.forget rfl rfl

/-- A copy that is finished is gone. -/
theorem finish_moves {advance : Advance} (ha : ∀ host d h, Spared h host (advance host d h))
    (host : Host) (d : Deadline) (h : Handle) :
    Moves host.registry [h] [] (h.finish host d advance).host.registry [] :=
  (ha host d h).moves.discard

/-- A run on a copy takes no more with it than its own token. -/
theorem runCopy_moves {advance : Advance} (ha : ∀ host d h, Spared h host (advance host d h))
    (host : Host) (x : Input) (d : Deadline) (source : Handle) :
    ∃ log, Moves host.registry [source] log (source.runCopy host x d advance).host.registry
      [source] := by
  unfold runCopy
  cases hc : source.copy host with
  | error f => exact ⟨[], .rest⟩
  | ok r =>
    obtain ⟨h, host₁⟩ := r
    have hcopied := copy_moves hc
    dsimp only
    cases hs : h.supply host₁ x with
    | error f => exact ⟨[], hcopied.discard⟩
    | ok r =>
      obtain ⟨h', host₂⟩ := r
      obtain ⟨token, hsupplied⟩ := supply_moves hs
      have hfinished := (finish_moves ha host₂ d h').frame [source]
      exact ⟨_, (hcopied.trans (hsupplied.frame [source])).trans hfinished⟩

end Handle

/-! ## Sessions -/

namespace Session

open Handle

/-- The handles of a session. -/
def handles (s : Session) : List Handle := [s.prepared, s.cursor]

/-- The handles of what may have come about. -/
def handlesOf (s : Result Session) : List Handle :=
  match s with
  | .ok s => s.handles
  | .error _ => []

theorem prepare_moves (host : Host) (source : Handle) (x : Input) :
    ∃ log, Moves host.registry [source] log (prepare host source x).2.registry
      ((prepare host source x).1.toOption.toList ++ [source]) := by
  unfold prepare
  cases hc : source.copy host with
  | error f => exact ⟨[], .rest⟩
  | ok r =>
    obtain ⟨h, host₁⟩ := r
    have hcopied := copy_moves hc
    dsimp only
    cases hs : h.supply host₁ x with
    | error f => exact ⟨[], hcopied.discard⟩
    | ok r =>
      obtain ⟨token, hsupplied⟩ := supply_moves hs
      exact ⟨_, hcopied.trans (hsupplied.frame [source])⟩

theorem ofPrepared_moves (host : Host) (root : Digest) (h : Handle) (stepChunk : UInt64) :
    Moves host.registry [h] [] (ofPrepared host root h stepChunk).2.registry
      (handlesOf (ofPrepared host root h stepChunk).1) := by
  unfold ofPrepared
  cases hc : h.copy host with
  | error f => exact Moves.rest.discard
  | ok r =>
    obtain ⟨cursor, host₁⟩ := r
    have hcopied := copy_moves hc
    dsimp only
    cases hf : h.freeze with
    | error e =>
      -- what can be copied can be frozen
      obtain ⟨i, hi, -⟩ := copy_eq_ok hc
      unfold freeze live at hf
      rw [hi] at hf
      cases hf
    | ok prepared => exact (hcopied.order (.swap ..)).change (freeze_keeps hf)

theorem restart_moves {host host' : Host} {s s' : Session} {i : Instance}
    (hlive : s.cursor.machine = some i) (hr : s.restart host = .ok (s', host')) :
    Moves host.registry s.handles [] host'.registry s'.handles := by
  obtain ⟨⟨fresh, host₁⟩, hc, hr⟩ := Result.of_bind hr
  have hcopied : Moves host.registry s.handles [] host₁.registry
      [fresh, s.prepared, s.cursor] := (copy_moves hc).frame [s.cursor]
  dsimp only at hr
  cases hd : s.cursor.destroy host₁ with
  | error e =>
    unfold destroy live at hd
    rw [hlive] at hd
    cases hd
  | ok r =>
    obtain rfl := destroy_eq_ok hd
    rw [hd] at hr
    cases hr
    -- the old cursor is dropped last, and the new one takes its place
    have horder : [fresh, s.prepared, s.cursor].Perm [s.cursor, s.prepared, fresh] :=
      List.reverse_perm [s.cursor, s.prepared, fresh]
    exact (hcopied.order horder).discard

theorem rewind_moves {host host' : Host} {s s' : Session} {position : UInt64}
    (hr : s.rewind host position = .ok (s', host')) :
    Moves host.registry s.handles [] host'.registry s'.handles := by
  obtain ⟨i, hl, hr⟩ := Result.of_bind hr
  split at hr
  · exact restart_moves (live_eq_ok (Instance.lift_eq_ok hl)) hr
  · cases hr
    exact .rest

theorem goOn_moves {host : Host} {s : Session} {r : Ran Handle × Host}
    (hs : s.cursor.Spared host r) :
    Moves host.registry s.handles [] (s.goOn r).host.registry (s.goOn r).session.handles :=
  hs.moves.within (.swap ..) (.swap ..)

theorem seek_moves (host : Host) (d : Deadline) (position : UInt64) (s : Session) :
    Moves host.registry s.handles [] (s.seek host d position).host.registry
      (s.seek host d position).session.handles := by
  unfold seek
  cases hr : s.rewind host position with
  | error f => exact .rest
  | ok r =>
    obtain ⟨s', host'⟩ := r
    have hrewound := rewind_moves hr
    dsimp only
    split
    · exact hrewound
    · split
      · exact hrewound.trans (goOn_moves (step_spared host' d _ s'.cursor))
      · exact hrewound

theorem read_moves {r : Registry} {hs : List Handle} {a : Asked Unit} (f : Instance → Reply)
    (m : Moves r hs [] a.host.registry a.session.handles) :
    Moves r hs [] (a.read f).host.registry (a.read f).session.handles := by
  unfold Asked.read
  split <;> exact m

theorem answer_moves (host : Host) (horizon : Nat) (d : Deadline) (s : Session) (ask : Ask) :
    Moves host.registry s.handles [] (s.answer host horizon d ask).host.registry
      (s.answer host horizon d ask).session.handles := by
  cases ask with
  | stepAt position => exact read_moves _ (seek_moves host d position s)
  | proofAt position => exact read_moves _ (seek_moves host d position s)
  | last => exact read_moves _ (goOn_moves (stepInChunks_spared host horizon d _ s.cursor))

theorem destroyed_moves (h : Handle) (host : Host) :
    Moves host.registry [h] [] (destroyed h host).2.registry [(destroyed h host).1] := by
  unfold destroyed
  cases hd : h.destroy host with
  | error e => exact .rest
  | ok r =>
    obtain rfl := destroy_eq_ok hd
    exact h.drop_moves host

theorem dropCursor_moves (host : Host) (s : Session) :
    Moves host.registry s.handles [] (s.dropCursor host).2.registry
      (s.dropCursor host).1.handles :=
  (destroyed_moves s.cursor host).within (.swap ..) (.swap ..)

theorem close_moves (host : Host) (s : Session) :
    Moves host.registry s.handles [] (s.close host).2.registry (s.close host).1.handles := by
  have hprepared : Moves host.registry s.handles [] (s.cancel.dropPrepared host).2.registry
      (s.cancel.dropPrepared host).1.handles :=
    (destroyed_moves s.prepared host).frame [s.cursor]
  exact hprepared.trans (dropCursor_moves _ _)

/-- How far a question brings a session before its worker looks after the cursor. -/
def asked (host : Host) (horizon : Nat) (d : Deadline) (s : Session) (ask : Ask) : Asked Reply :=
  if s.isCancelled then ⟨fail .cancelled, s, host⟩ else s.answer host horizon d ask

theorem job_of_asked (host : Host) (horizon : Nat) (d : Deadline) (s : Session) (ask : Ask) :
    s.job host horizon d ask =
      if (s.asked host horizon d ask).session.isCancelled then
        { s.asked host horizon d ask with
          session := ((s.asked host horizon d ask).session.dropCursor
            (s.asked host horizon d ask).host).1
          host := ((s.asked host horizon d ask).session.dropCursor
            (s.asked host horizon d ask).host).2 }
      else s.asked host horizon d ask := rfl

theorem asked_moves (host : Host) (horizon : Nat) (d : Deadline) (s : Session) (ask : Ask) :
    Moves host.registry s.handles [] (s.asked host horizon d ask).host.registry
      (s.asked host horizon d ask).session.handles := by
  unfold asked
  split
  · exact .rest
  · exact answer_moves host horizon d s ask

theorem job_moves (host : Host) (horizon : Nat) (d : Deadline) (s : Session) (ask : Ask) :
    Moves host.registry s.handles [] (s.job host horizon d ask).host.registry
      (s.job host horizon d ask).session.handles := by
  have hasked := asked_moves host horizon d s ask
  rw [job_of_asked]
  split
  · exact hasked.trans (dropCursor_moves _ _)
  · exact hasked

end Session

end Rerun
