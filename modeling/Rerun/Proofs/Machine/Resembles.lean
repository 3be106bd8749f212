import Rerun.Proofs.Machine.Token

/-!
# Machines that go the same way

Two machines of one program that have come equally far, are given the same messages and find the
same contents go on alike, whatever else was handed to them and under whatever tokens they ask
(`Resembles.step`, `Resembles.stepUntilHostIo`).
-/

namespace Rerun.Machine

/-- A machine cannot be told from another by what it does, up to the token that it names. -/
structure Resembles (resolve resolve' : Resolve) (m m' : Machine) : Prop where
  program : m'.program = m.program
  progress : m'.progress = m.progress
  messages : ∀ inbox index, m'.message? inbox index = m.message? inbox index
  contents : Matches resolve resolve' m.context m'.context

/-- Two calls end alike, at the same time, and leave machines that go on alike. -/
structure EndAlike (resolve resolve' : Resolve) (r r' : Ran Machine) : Prop where
  result : r'.result.untoken = r.result.untoken
  deadline : r'.deadline = r.deadline
  machine : r.machine.Resembles resolve resolve' r'.machine

variable {resolve resolve' : Resolve} {m m' : Machine}

namespace Resembles

theorem current (h : m.Resembles resolve resolve' m') : m'.current = m.current := by
  unfold Machine.current
  rw [h.program, h.progress]

theorem atHostIo (h : m.Resembles resolve resolve' m') : m'.atHostIo = m.atHostIo := by
  unfold Machine.atHostIo
  rw [h.current]

/-- What becomes of the progress alone becomes of it in both. -/
theorem withProgress (h : m.Resembles resolve resolve' m') (p : Progress) :
    ({ m with progress := p } : Machine).Resembles resolve resolve' { m' with progress := p } :=
  ⟨h.program, rfl, h.messages, h.contents⟩

theorem perform (h : m.Resembles resolve resolve' m') (i : Instruction) :
    (m'.perform resolve' i).untoken = (m.perform resolve i).untoken := by
  have hsame : m'.perform resolve' i = (m.withToken m'.context).perform resolve' i := by
    unfold Machine.perform
    rw [h.progress, h.program]
    cases i with
    | readInbox inbox =>
      dsimp only
      rw [h.messages]
      rfl
    | _ => rfl
  rw [hsame]
  exact perform_withToken h.contents i

/-- A step fails in both, for the same reason, or leaves machines that go on alike. -/
theorem next (h : m.Resembles resolve resolve' m') :
    (∃ f g, m.next resolve = .error f ∧ m'.next resolve' = .error g ∧ g.untoken = f.untoken) ∨
      ∃ n n', m.next resolve = .ok n ∧ m'.next resolve' = .ok n' ∧
        n.Resembles resolve resolve' n' := by
  have hstatus : ∀ s, (m.setStatus s).Resembles resolve resolve' (m'.setStatus s) := by
    intro s
    unfold setStatus
    rw [h.progress]
    exact h.withProgress _
  unfold Machine.next
  rw [h.current]
  cases m.current with
  | none => exact .inr ⟨_, _, rfl, rfl, hstatus .finished⟩
  | some i =>
    have hp := h.perform i
    dsimp only
    cases hr : m.perform resolve i with
    | error f =>
      rw [hr] at hp
      obtain ⟨g, hg, hgf⟩ := Result.untoken_eq_error hp
      rw [hg]
      exact .inl ⟨f, g, rfl, rfl, hgf⟩
    | ok o =>
      rw [hr, Result.untoken_ok, Result.untoken_eq_ok] at hp
      rw [hp]
      cases o with
      | none => exact .inr ⟨_, _, rfl, rfl, hstatus .tooFar⟩
      | some p => exact .inr ⟨_, _, rfl, rfl, h.withProgress _⟩

theorem step (h : m.Resembles resolve resolve' m') (count : Nat) (d : Deadline) :
    EndAlike resolve resolve' (m.step resolve count d) (m'.step resolve' count d) := by
  induction count generalizing m m' d with
  | zero => exact ⟨rfl, rfl, h⟩
  | succ count ih =>
    rw [Machine.step, Machine.step, h.progress]
    split
    · exact ⟨rfl, rfl, h⟩
    · split
      · exact ⟨rfl, rfl, h⟩
      · obtain ⟨f, g, hf, hg, hgf⟩ | ⟨n, n', hn, hn', hon⟩ := h.next
        · rw [hf, hg]
          exact ⟨congrArg Except.error hgf, rfl, h⟩
        · rw [hn, hn']
          exact ih hon d.tick

theorem stepUntilHostIo (h : m.Resembles resolve resolve' m') (fuel : Nat) (d : Deadline) :
    EndAlike resolve resolve' (m.stepUntilHostIo resolve fuel d)
      (m'.stepUntilHostIo resolve' fuel d) := by
  induction fuel generalizing m m' d with
  | zero => exact ⟨rfl, rfl, h⟩
  | succ fuel ih =>
    rw [Machine.stepUntilHostIo, Machine.stepUntilHostIo, h.progress, h.atHostIo]
    split
    · exact ⟨rfl, rfl, h⟩
    · split
      · exact ⟨rfl, rfl, h⟩
      · split
        · exact ⟨rfl, rfl, h⟩
        · obtain ⟨f, g, hf, hg, hgf⟩ | ⟨n, n', hn, hn', hon⟩ := h.next
          · rw [hf, hg]
            exact ⟨congrArg Except.error hgf, rfl, h⟩
          · rw [hn, hn']
            exact ih hon d.tick

theorem hash (h : m.Resembles resolve resolve' m') : m'.hash = m.hash := by
  unfold Machine.hash commitment
  rw [h.program, h.progress]

theorem proof (h : m.Resembles resolve resolve' m') : m'.proof = m.proof := by
  unfold Machine.proof
  rw [h.hash, h.progress, h.current]

/-- A global state that both are set to. -/
theorem setGlobal (h : m.Resembles resolve resolve' m') (g : GlobalState) :
    (m.setGlobal g).Resembles resolve resolve' (m'.setGlobal g) := by
  unfold Machine.setGlobal
  rw [h.progress]
  exact h.withProgress _

/-- A message that both are given. -/
theorem addMessage (h : m.Resembles resolve resolve' m') (inbox : Inbox) (msg : Message) :
    (m.addMessage inbox msg).Resembles resolve resolve' (m'.addMessage inbox msg) := by
  refine ⟨h.program, h.progress, fun inbox' index => ?_, h.contents⟩
  have hrest := h.messages inbox' index
  unfold message? at hrest ⊢
  unfold Machine.addMessage
  rw [List.lookup_cons, List.lookup_cons, hrest]

end Resembles

end Rerun.Machine
