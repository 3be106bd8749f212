import Rerun.Proofs.Machine.Deadline
import Rerun.Proofs.Registry

/-!
# Runs under another token

The number of a token has no effect on a run, but for the error that names it. So a run whose
contents come from an equal resolver ends in the same way, up to the token in that error
(`run_withToken`, `runInChunks_withToken`).
-/

namespace Rerun

/-! ## Outcomes without the token -/

/-- The error without the token that it names. -/
def Error.untoken : Error → Error
  | .preimageFailed hash _ reason => .preimageFailed hash 0 reason
  | e => e

/-- The failure without the token that it names. -/
def Failure.untoken : Failure → Failure
  | .error e => .error e.untoken
  | f => f

/-- The result without the token that its error names. -/
def Result.untoken {α : Type} : Result α → Result α
  | .ok a => .ok a
  | .error f => .error f.untoken

namespace Result

variable {α β : Type}

@[simp] theorem untoken_ok (a : α) : untoken (.ok a : Result α) = .ok a := rfl

@[simp] theorem untoken_error (f : Failure) :
    untoken (.error f : Result α) = .error f.untoken := rfl

/-- A call that gives a value still gives it without the token. -/
theorem untoken_eq_ok {r : Result α} {a : α} : r.untoken = .ok a ↔ r = .ok a := by
  cases r with
  | ok b => rw [untoken_ok]
  | error f => simp

theorem untoken_eq_error {r : Result α} {f : Failure} (h : r.untoken = .error f) :
    ∃ g, r = .error g ∧ g.untoken = f := by
  cases r with
  | ok b => cases h
  | error g =>
    cases h
    exact ⟨g, rfl, rfl⟩

end Result

/-! ## Resolvers under a token -/

namespace Resolver

/-- The content behind a hash, as someone gets it who asks under a token. -/
def under (resolver : Resolver) (token : Nat) (hash : Digest) : Result Bytes :=
  match resolver hash with
  | .found content => .ok content
  | .refused reason => fail (.preimageFailed hash token reason)
  | .panicked message => .error (.panic (.text message))

theorem under_untoken (resolver : Resolver) (t u : Nat) (hash : Digest) :
    (resolver.under t hash).untoken = (resolver.under u hash).untoken := by
  unfold under
  cases resolver hash <;> rfl

end Resolver

theorem Registry.resolve_eq_under {r : Registry} {t : Nat} {e : Registration}
    (h : r.entry? t = some e) (hash : Digest) : r.resolve t hash = e.resolver.under t hash := by
  unfold resolve
  rw [h]
  rfl

namespace Machine

/-! ## Runs under a token -/

/-- The machine with a token in place of its own. -/
def withToken (m : Machine) (token : Nat) : Machine := { m with context := token }

@[simp] theorem withToken_progress (m : Machine) (token : Nat) :
    (m.withToken token).progress = m.progress := rfl

/-- What is found under the other token is the same, up to the token. -/
def Matches (resolve resolve' : Resolve) (context token : Nat) : Prop :=
  ∀ hash, (resolve' token hash).untoken = (resolve context hash).untoken

variable {resolve resolve' : Resolve} {token : Nat}

theorem perform_withToken {m : Machine} (h : Matches resolve resolve' m.context token)
    (i : Instruction) :
    ((m.withToken token).perform resolve' i).untoken = (m.perform resolve i).untoken := by
  cases i with
  | readPreimage hash =>
    have hh := h hash
    show ((resolve' token hash >>= _ : Result (Option Progress))).untoken = _
    simp only [perform]
    cases hr : resolve m.context hash with
    | ok data =>
      rw [hr, Result.untoken_ok, Result.untoken_eq_ok] at hh
      rw [hh]
      rfl
    | error f =>
      rw [hr] at hh
      obtain ⟨g, hg, hgf⟩ := Result.untoken_eq_error hh
      rw [hg]
      exact congrArg Except.error hgf
  | mix value => rfl
  | readInbox inbox => rfl
  | jump target => rfl
  | halt => rfl
  | fail => rfl

theorem next_withToken {m : Machine} (h : Matches resolve resolve' m.context token) :
    ((m.withToken token).next resolve').untoken =
      Result.untoken ((m.next resolve).map (·.withToken token)) := by
  have hc : (m.withToken token).current = m.current := rfl
  unfold next
  rw [hc]
  cases hi : m.current with
  | none => rfl
  | some i =>
    have hp := perform_withToken h i
    dsimp only
    cases hr : m.perform resolve i with
    | ok o =>
      rw [hr, Result.untoken_ok, Result.untoken_eq_ok] at hp
      rw [hp]
      cases o <;> rfl
    | error f =>
      rw [hr] at hp
      obtain ⟨g, hg, hgf⟩ := Result.untoken_eq_error hp
      rw [hg]
      exact congrArg Except.error hgf

/-- A run under another token ends in the same way, up to the token. -/
theorem run_withToken {m : Machine} (h : Matches resolve resolve' m.context token) (n : Nat) :
    ((m.withToken token).run resolve' n).1.untoken = (m.run resolve n).1.untoken ∧
      ((m.withToken token).run resolve' n).2 = (m.run resolve n).2.withToken token := by
  induction n generalizing m with
  | zero => exact ⟨rfl, rfl⟩
  | succ n ih =>
    cases hh : m.progress.status.isHalted with
    | true =>
      rw [run_of_halted hh, run_of_halted (m := m.withToken token) hh]
      exact ⟨rfl, rfl⟩
    | false =>
      have hn := next_withToken h
      cases hr : m.next resolve with
      | error f =>
        rw [hr] at hn
        obtain ⟨g, hg, hgf⟩ := Result.untoken_eq_error hn
        rw [run_succ_error hh hr, run_succ_error (m := m.withToken token) hh hg]
        exact ⟨congrArg Except.error hgf, rfl⟩
      | ok m' =>
        rw [hr] at hn
        have hn' := Result.untoken_eq_ok.1 hn
        rw [run_succ_ok hh hr, run_succ_ok (m := m.withToken token) hh hn']
        exact ih ((next_given hr).2.2 ▸ h)

/-- So does one that takes some steps at a time. -/
theorem runInChunks_withToken {m : Machine} (h : Matches resolve resolve' m.context token)
    (chunk fuel : Nat) :
    ((m.withToken token).runInChunks resolve' chunk fuel).1.untoken =
        (m.runInChunks resolve chunk fuel).1.untoken ∧
      ((m.withToken token).runInChunks resolve' chunk fuel).2 =
        (m.runInChunks resolve chunk fuel).2.withToken token := by
  induction fuel generalizing m with
  | zero => exact ⟨rfl, rfl⟩
  | succ fuel ih =>
    obtain ⟨h1, h2⟩ := run_withToken h chunk
    rw [runInChunks, runInChunks, withToken_progress]
    split
    · exact ⟨rfl, rfl⟩
    · have hcontext := (run_given resolve chunk m).2.2
      cases hr : m.run resolve chunk with
      | mk r m' =>
        cases hr' : (m.withToken token).run resolve' chunk with
        | mk r' m'' =>
          rw [hr, hr'] at h1 h2
          rw [hr] at hcontext
          obtain rfl : m'' = m'.withToken token := h2
          cases r with
          | ok u =>
            obtain rfl : r' = .ok u := Result.untoken_eq_ok.1 h1
            exact ih (hcontext ▸ h)
          | error f =>
            obtain ⟨g, rfl, hgf⟩ := Result.untoken_eq_error h1
            exact ⟨congrArg Except.error hgf, rfl⟩

/-! ## Runs that find the same -/

theorem next_congr {m : Machine} (h : resolve' m.context = resolve m.context) :
    m.next resolve' = m.next resolve := by
  unfold next
  cases hi : m.current with
  | none => rfl
  | some i =>
    have hp : m.perform resolve' i = m.perform resolve i := by
      cases i with
      | readPreimage hash =>
        simp only [perform]
        rw [h]
      | mix value => rfl
      | readInbox inbox => rfl
      | jump target => rfl
      | halt => rfl
      | fail => rfl
    dsimp only
    rw [hp]

/-- A run depends on nothing but what is found under the token of its machine. -/
theorem run_congr {m : Machine} (h : resolve' m.context = resolve m.context) (n : Nat) :
    m.run resolve' n = m.run resolve n := by
  induction n generalizing m with
  | zero => rfl
  | succ n ih =>
    rw [run, run, next_congr h]
    split
    · rfl
    · cases hn : m.next resolve with
      | error f => rfl
      | ok m' => exact ih ((next_given hn).2.2 ▸ h)

end Machine

end Rerun
