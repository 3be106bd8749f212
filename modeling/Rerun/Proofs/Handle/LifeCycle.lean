import Rerun.Proofs.Handle.Family

/-!
# The life of a handle

A handle whose machine was released refuses everything that needs the machine
(`perform_destroyed`), and a frozen one everything that changes it (`perform_frozen`); either leaves
all as it is. Nothing but its release changes a frozen handle (`perform_keeps_frozen`).
-/

namespace Rerun.Handle

/-- Whether an operation changes the machine, or the resolver that it asks. -/
def Op.isMutation : Op → Bool
  | .step .. | .stepInChunks .. | .stepUntilHostIo .. | .setGlobal .. | .addMessage ..
  | .restore .. | .setResolver .. => true
  | _ => false

/-- Whether an operation needs the machine. Only whether it is still there, and a line about the
handle, can be told without it. -/
def Op.needsMachine : Op → Bool
  | .isDestroyed | .describe .. => false
  | _ => true

/-- Whether an operation asks for the machine or the family, and for nothing else. -/
def Op.isQuestion : Op → Bool
  | .hash | .root | .global | .steps | .status | .isRunning | .isErrored | .token | .validFor ..
  | .proof => true
  | _ => false

variable {h : Handle} {host : Host} {e : Error}

/-! ## Refusals -/

theorem live_destroyed (hm : h.machine = none) : h.live = .error .destroyed := by
  unfold live
  rw [hm]

theorem unfrozen_destroyed (hm : h.machine = none) : h.unfrozen = .error .destroyed := by
  unfold unfrozen
  rw [live_destroyed hm]
  rfl

theorem unfrozen_frozen {i : Instance} (hm : h.machine = some i) (hf : h.isFrozen = true) :
    h.unfrozen = .error .frozen := by
  unfold unfrozen live
  rw [hm, hf]
  rfl

theorem reading_refused (hl : h.live = .error e) (f : Instance → Reply) :
    h.reading host f = ⟨fail e, host, h⟩ := by
  unfold reading
  rw [hl]
  rfl

theorem advance_refused (hu : h.unfrozen = .error e) (d : Deadline)
    (run : Deadline → Instance → Ran Instance × Host) :
    running (h.advance host d run) = ⟨fail e, host, h⟩ := by
  unfold advance
  rw [hu]
  rfl

theorem update_refused (hu : h.unfrozen = .error e) (change : Instance → Result Instance) :
    h.changing host (h.update change) = ⟨fail e, host, h⟩ := by
  unfold update
  rw [hu]
  rfl

/-- Who may not change a handle is refused, whatever the change. -/
theorem perform_refused (hu : h.unfrozen = .error e) (horizon : Nat) (host : Host) {op : Op}
    (ho : op.isMutation = true) : h.perform horizon host op = ⟨fail e, host, h⟩ := by
  cases op with
  | step d count => exact advance_refused hu d _
  | stepInChunks d chunk =>
    show running (h.stepInChunks host horizon d chunk) = _
    unfold stepInChunks
    split
    · exact advance_refused hu d _
    · exact advance_refused hu d _
  | stepUntilHostIo d => exact advance_refused hu d _
  | setGlobal g => exact update_refused hu _
  | addMessage inbox msg => exact update_refused hu _
  | restore path => exact update_refused hu _
  | setResolver resolver =>
    unfold perform setResolver
    rw [hu]
    rfl
  | _ => cases ho

theorem perform_destroyed (hm : h.machine = none) (horizon : Nat) (host : Host) {op : Op}
    (ho : op.needsMachine = true) :
    h.perform horizon host op = ⟨fail .destroyed, host, h⟩ := by
  have hl := live_destroyed hm
  cases hmut : op.isMutation with
  | true => exact perform_refused (unfrozen_destroyed hm) horizon host hmut
  | false =>
    cases op with
    | isDestroyed => cases ho
    | describe id => cases ho
    | save path =>
      unfold perform save
      rw [hl]
      rfl
    | freeze =>
      unfold perform freeze
      rw [hl]
      rfl
    | destroy =>
      unfold perform destroy
      rw [hl]
      rfl
    | hash | root | global | steps | status | isRunning | isErrored | token | isFrozen | proof =>
      exact reading_refused hl _
    | validFor requested => exact reading_refused hl _
    | _ => cases hmut

theorem perform_frozen {i : Instance} (hm : h.machine = some i) (hf : h.isFrozen = true)
    (horizon : Nat) (host : Host) {op : Op} (ho : op.isMutation = true) :
    h.perform horizon host op = ⟨fail .frozen, host, h⟩ :=
  perform_refused (unfrozen_frozen hm hf) horizon host ho

/-! ## What stays -/

/-- Whether a handle is frozen makes no difference to what it tells of its machine. -/
theorem question_reply {h' : Handle} {host' : Host} (hm : h'.machine = h.machine)
    (hf : h'.family = h.family) (horizon : Nat) {op : Op} (ho : op.isQuestion = true) :
    (h'.perform horizon host' op).reply = (h.perform horizon host op).reply := by
  have hlive : h'.live = h.live := by
    unfold live
    rw [hm]
  cases op with
  | hash | root | global | steps | status | isRunning | isErrored | token | proof =>
    unfold perform reading
    simp only [hlive, hf]
  | validFor requested =>
    unfold perform reading
    rw [hlive]
  | _ => cases ho

/-- A handle that has its machine can always be frozen. -/
theorem freeze_live {i : Instance} (hm : h.machine = some i) :
    h.freeze = .ok { h with isFrozen := true } := by
  unfold freeze live
  rw [hm]
  rfl

/-- What a frozen handle is asked leaves it as it is, unless that is to release the machine. -/
theorem perform_keeps_frozen {i : Instance} (hm : h.machine = some i) (hf : h.isFrozen = true)
    (horizon : Nat) (host : Host) {op : Op} (ho : op ≠ .destroy) :
    (h.perform horizon host op).handle = h := by
  cases hmut : op.isMutation with
  | true => rw [perform_frozen hm hf horizon host hmut]
  | false =>
    cases op with
    | destroy => exact absurd rfl ho
    | save path =>
      unfold perform
      dsimp only
      split <;> rfl
    | freeze =>
      have hsame : ({ h with isFrozen := true } : Handle) = h := by
        rw [← hf]
      show (h.changing host (Instance.lift h.freeze)).handle = h
      rw [freeze_live hm]
      exact hsame
    | step d count => cases hmut
    | stepInChunks d chunk => cases hmut
    | stepUntilHostIo d => cases hmut
    | setGlobal g => cases hmut
    | addMessage inbox msg => cases hmut
    | restore path => cases hmut
    | setResolver resolver => cases hmut
    | _ => rfl

/-- A handle without its machine stays as it is. -/
theorem perform_keeps_destroyed (hm : h.machine = none) (horizon : Nat) (host : Host) (op : Op) :
    (h.perform horizon host op).handle = h := by
  cases hn : op.needsMachine with
  | true => rw [perform_destroyed hm horizon host hn]
  | false =>
    cases op with
    | isDestroyed => rfl
    | describe id => rfl
    | _ => cases hn

end Rerun.Handle
