import Rerun.Engine.Basic
import Rerun.Proofs.Machine.Ahead

/-!
# What a call of a machine leaves alone

A call of a machine of either kind changes nothing of what all machines share but the slot for
failed callbacks, and it does not change the token of the machine.
-/

namespace Rerun

/-- A sequence succeeds only if its parts do. -/
theorem Result.of_bind {ε α β : Type} {x : Except ε α} {f : α → Except ε β} {b : β}
    (h : x >>= f = .ok b) : ∃ a, x = .ok a ∧ f a = .ok b := by
  cases x with
  | error e => cases h
  | ok a => exact ⟨a, rfl, h⟩

/-! ## Machines of either kind -/

namespace Machine

theorem step_context (resolve : Resolve) (count : Nat) (d : Deadline) (m : Machine) :
    (m.step resolve count d).machine.context = m.context := by
  obtain ⟨k, -, hk⟩ := step_machine resolve count d m
  have hc := (run_given resolve k m).2.2
  rwa [hk] at hc

theorem stepUntilHostIo_context (resolve : Resolve) (fuel : Nat) (d : Deadline) (m : Machine) :
    (m.stepUntilHostIo resolve fuel d).machine.context = m.context :=
  (stepUntilHostIo_ahead resolve fuel d m).1.given_eq.2.2

theorem restore_context {m m' : Machine} {fs : Files} {path : String}
    (h : m.restore fs path = .ok m') : m'.context = m.context := by
  unfold restore at h
  dsimp only at h
  split at h
  · cases h
  · split at h
    · cases h
    · split at h
      · cases h
        rfl
      · cases h

end Machine

namespace ScriptedMachine

theorem take_context (answers : List (Option Bytes)) (m : ScriptedMachine) :
    (answers.foldl take m).context = m.context := by
  induction answers generalizing m with
  | nil => rfl
  | cons answer answers ih =>
    rw [List.foldl_cons, ih]
    cases answer <;> rfl

theorem call_context (resolve : Nat → Digest → Result Bytes) (slot : Slot) (count : UInt64)
    (returned : Option Bytes) (d : Deadline) (m : ScriptedMachine) :
    (m.call resolve slot count returned d).1.machine.context = m.context := by
  unfold call
  split
  · rfl
  · exact take_context _ _

theorem addMessage_context {m m' : ScriptedMachine} {inbox : Inbox} {msg : Message}
    (h : m.addMessage inbox msg = .ok m') : m'.context = m.context := by
  unfold addMessage at h
  split at h
  · cases h
    rfl
  · cases h

end ScriptedMachine

/-! ## Calls -/

namespace Instance

theorem lift_eq_ok {α : Type} {x : Except Error α} {a : α} (h : lift x = .ok a) : x = .ok a := by
  cases x with
  | ok a => cases h; rfl
  | error e => cases h

/-- The token under which a machine asks for content. -/
def context (i : Instance) : Nat :=
  match i.machine with
  | .builtin m => m.context
  | .scripted m => m.context

/-- A call of a machine left its token as it was, and of what all machines share everything but the
slot. -/
structure Spared (i : Instance) (host : Host) (r : Ran Instance × Host) : Prop where
  context : r.1.machine.context = i.context
  host : ∃ slot, r.2 = { host with slot }

theorem Spared.atOnce (i : Instance) (host : Host) (d : Deadline) (result : Result Unit) :
    i.Spared host (i.atOnce d result, host) := ⟨rfl, host.slot, rfl⟩

theorem Spared.trans {i : Instance} {host host' : Host} {r : Ran Instance} {s : Ran Instance × Host}
    (h : i.Spared host (r, host')) (h' : r.machine.Spared host' s) : i.Spared host s := by
  obtain ⟨slot, hslot⟩ := h.host
  obtain ⟨slot', hslot'⟩ := h'.host
  subst hslot
  exact ⟨h'.context.trans h.context, slot', hslot'⟩

theorem step_spared (host : Host) (count : Nat) (d : Deadline) (i : Instance) :
    i.Spared host (i.step host count d) := by
  obtain ⟨machine, faults⟩ := i
  unfold step
  split
  · exact .atOnce _ host d _
  · split
    · exact .atOnce _ host d _
    · cases machine with
      | builtin m => exact ⟨Machine.step_context _ count d m, host.slot, rfl⟩
      | scripted m => exact ⟨ScriptedMachine.call_context _ host.slot _ _ d m, _, rfl⟩

theorem stepUntilHostIo_spared (host : Host) (horizon : Nat) (d : Deadline) (i : Instance) :
    i.Spared host (i.stepUntilHostIo host horizon d) := by
  obtain ⟨machine, faults⟩ := i
  unfold stepUntilHostIo
  split
  · exact .atOnce _ host d _
  · cases machine with
    | builtin m => exact ⟨Machine.stepUntilHostIo_context _ _ d m, host.slot, rfl⟩
    | scripted m => exact ⟨ScriptedMachine.call_context _ host.slot _ _ d m, _, rfl⟩

theorem stepInChunks_spared (chunk fuel : Nat) (host : Host) (d : Deadline) (i : Instance) :
    i.Spared host (i.stepInChunks chunk fuel host d) := by
  induction fuel generalizing host d i with
  | zero => exact .atOnce i host d _
  | succ fuel ih =>
    rw [stepInChunks]
    split
    · exact .atOnce i host d _
    · split
      · exact .atOnce i host d.tick _
      · have hstep := step_spared host chunk d.tick i
        dsimp only
        split
        · exact hstep
        · exact hstep.trans (ih _ _ _)

/-! ## Changes -/

@[simp] theorem setContext_context (i : Instance) (token : Nat) :
    (i.setContext token).context = token := by
  obtain ⟨machine, faults⟩ := i
  cases machine <;> rfl

@[simp] theorem setGlobal_context (i : Instance) (g : GlobalState) :
    (i.setGlobal g).context = i.context := by
  obtain ⟨machine, faults⟩ := i
  cases machine <;> rfl

theorem copy_eq {i i' : Instance} (h : i.copy = .ok i') : i' = i := by
  obtain ⟨machine, faults⟩ := i
  obtain ⟨-, -, h⟩ := Result.of_bind h
  cases machine with
  | builtin m => cases h; rfl
  | scripted m =>
    dsimp only at h
    split at h
    · cases h
    · cases h; rfl

theorem addMessage_context {i i' : Instance} {inbox : Inbox} {msg : Message}
    (h : i.addMessage inbox msg = .ok i') : i'.context = i.context := by
  obtain ⟨machine, faults⟩ := i
  obtain ⟨-, -, h⟩ := Result.of_bind h
  dsimp only at h
  split at h
  · cases h
  · cases machine with
    | builtin m => cases h; rfl
    | scripted m =>
      obtain ⟨m', hm, h⟩ := Result.of_bind h
      cases h
      exact ScriptedMachine.addMessage_context (lift_eq_ok hm)

theorem restore_context {i i' : Instance} {host : Host} {path : String}
    (h : i.restore host path = .ok i') : i'.context = i.context := by
  obtain ⟨machine, faults⟩ := i
  cases machine with
  | builtin m =>
    obtain ⟨m', hm, h⟩ := Result.of_bind h
    cases h
    exact Machine.restore_context (lift_eq_ok hm)
  | scripted m =>
    obtain ⟨text, -, h⟩ := Result.of_bind h
    dsimp only at h
    split at h
    · cases h; rfl
    · cases h

/-- Writing a state changes nothing but the files. -/
theorem save_host {i : Instance} {host host' : Host} {path : String}
    (h : i.save host path = .ok host') : ∃ files, host' = { host with files } := by
  obtain ⟨machine, faults⟩ := i
  obtain ⟨-, -, h⟩ := Result.of_bind h
  cases machine with
  | builtin m =>
    obtain ⟨files, -, h⟩ := Result.of_bind h
    cases h
    exact ⟨files, rfl⟩
  | scripted m =>
    obtain ⟨text, -, h⟩ := Result.of_bind h
    split at h
    · cases h
      exact ⟨host.files, rfl⟩
    · cases h

end Instance

/-- A machine starts without a token. -/
theorem Backend.load_context {b : Backend} {fs : Files} {path : Bytes} {i : Instance}
    (h : b.load fs path = .ok i) : i.context = 0 := by
  obtain ⟨-, -, h⟩ := Result.of_bind h
  dsimp only at h
  split at h
  · cases h
  · split at h
    · obtain ⟨p, -, h⟩ := Result.of_bind h
      cases h
      rfl
    · obtain ⟨text, -, h⟩ := Result.of_bind h
      split at h
      · cases h
      · split at h
        · cases h
        · cases h
          rfl

end Rerun
