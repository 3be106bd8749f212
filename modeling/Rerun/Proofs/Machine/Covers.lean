import Rerun.Proofs.Machine.Run

/-!
# Machines that find more

A machine covers another one of the same program if it has come as far and finds whatever the other
one finds, in its inboxes and behind the hashes that it asks for. It then goes the same way for as
long as the other one neither fails nor stops for want of a message (`Covers.run`). So nothing
depends on what was found and not asked for.
-/

namespace Rerun.Machine

/-- One machine has come as far as another one, and finds whatever that one finds. -/
structure Covers (resolve resolve' : Resolve) (m m' : Machine) : Prop where
  program : m'.program = m.program
  progress : m'.progress = m.progress
  messages : ∀ inbox index data,
    m.message? inbox index = some data → m'.message? inbox index = some data
  contents : ∀ hash content,
    resolve m.context hash = .ok content → resolve' m'.context hash = .ok content

namespace Covers

variable {resolve resolve' : Resolve} {m m' : Machine}

theorem current (h : m.Covers resolve resolve' m') : m'.current = m.current := by
  simp only [Machine.current, h.program, h.progress]

theorem hash (h : m.Covers resolve resolve' m') : m'.hash = m.hash := by
  simp only [Machine.hash, commitment, h.program, h.progress]

/-- What becomes of the progress alone becomes of it in both. -/
theorem withProgress (h : m.Covers resolve resolve' m') (p : Progress) :
    ({ m with progress := p } : Machine).Covers resolve resolve' { m' with progress := p } :=
  ⟨h.program, rfl, h.messages, h.contents⟩

/-- Whatever an instruction does in one machine, it does in the other. -/
theorem perform (h : m.Covers resolve resolve' m') {i : Instruction} {p : Progress}
    (hp : m.perform resolve i = .ok (some p)) : m'.perform resolve' i = .ok (some p) := by
  cases i with
  | readInbox inbox =>
    simp only [Machine.perform, h.progress] at hp ⊢
    cases hm : m.message? inbox (nextIndex m.progress.global inbox) with
    | none => rw [hm] at hp; cases hp
    | some data =>
      rw [hm] at hp
      rw [h.messages _ _ _ hm]
      exact hp
  | readPreimage hash =>
    simp only [Machine.perform, h.progress] at hp ⊢
    cases hr : resolve m.context hash with
    | error f => rw [hr] at hp; cases hp
    | ok content =>
      rw [hr] at hp
      rw [h.contents _ _ hr]
      exact hp
  | jump target => simpa only [Machine.perform, h.program, h.progress] using hp
  | mix value => simpa only [Machine.perform, h.progress] using hp
  | halt => simpa only [Machine.perform, h.progress] using hp
  | fail => simpa only [Machine.perform, h.progress] using hp

/-- A step of one machine is a step of the other, unless a message was missing. -/
theorem next (h : m.Covers resolve resolve' m') {n : Machine} (hn : m.next resolve = .ok n)
    (hs : n.progress.status ≠ .tooFar) :
    ∃ n', m'.next resolve' = .ok n' ∧ n.Covers resolve resolve' n' := by
  unfold Machine.next at hn ⊢
  rw [h.current]
  cases hc : m.current with
  | none =>
    rw [hc] at hn
    cases hn
    refine ⟨_, rfl, ?_⟩
    simp only [setStatus, h.progress]
    exact h.withProgress _
  | some i =>
    rw [hc] at hn
    dsimp only at hn ⊢
    cases hp : m.perform resolve i with
    | error f => rw [hp] at hn; cases hn
    | ok o =>
      rw [hp] at hn
      cases o with
      | none =>
        cases hn
        exact absurd rfl hs
      | some p =>
        cases hn
        refine ⟨{ m' with progress := { p with steps := p.steps + 1 } }, ?_, h.withProgress _⟩
        rw [h.perform hp]
        rfl

/-- A run of one machine is a run of the other, unless a message was missing in the end. -/
theorem run (h : m.Covers resolve resolve' m') {k : Nat} {n : Machine}
    (hr : m.run resolve k = (.ok (), n)) (hs : n.progress.status ≠ .tooFar) :
    ∃ n', m'.run resolve' k = (.ok (), n') ∧ n.Covers resolve resolve' n' := by
  induction k generalizing m m' with
  | zero =>
    cases hr
    exact ⟨m', rfl, h⟩
  | succ k ih =>
    rcases run_succ_cases hr with ⟨hhalted, rfl⟩ | ⟨hrunning, m₁, hn, hr⟩
    · exact ⟨m', run_of_halted (by rw [h.progress]; exact hhalted) _, h⟩
    · -- a machine that is too far stays where it is, so the run would have ended there
      have hm₁ : m₁.progress.status ≠ .tooFar := by
        intro htoo
        rw [run_of_halted (by rw [htoo]; rfl)] at hr
        cases hr
        exact hs htoo
      obtain ⟨m₁', hn', hon⟩ := h.next hn hm₁
      rw [run_succ_ok (by rw [h.progress]; exact hrunning) hn']
      exact ih hon hr

end Covers

end Rerun.Machine
