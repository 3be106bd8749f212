import Rerun.Proofs.Machine.Token

/-!
# The token in an error

A machine that asks for the same contents under another token does the same, and what it reports
names the other token (`step_rename`, `stepUntilHostIo_rename`). Unlike `run_withToken` this says
what becomes of the token, and it holds under every deadline.
-/

namespace Rerun

/-! ## Outcomes with another token -/

/-- The error with another number for the token that it names. -/
def Error.retoken (f : Nat → Nat) : Error → Error
  | .preimageFailed hash token reason => .preimageFailed hash (f token) reason
  | e => e

/-- The failure with another number for the token that it names. -/
def Failure.retoken (f : Nat → Nat) : Failure → Failure
  | .error e => .error (e.retoken f)
  | e => e

/-- The result with another number for the token that its error names. -/
def Result.retoken {α : Type} (f : Nat → Nat) : Result α → Result α
  | .ok a => .ok a
  | .error e => .error (e.retoken f)

namespace Result

variable {α β : Type} {f g : Nat → Nat}

@[simp] theorem retoken_ok (f : Nat → Nat) (a : α) : retoken f (.ok a : Result α) = .ok a := rfl

@[simp] theorem retoken_error (f : Nat → Nat) (e : Failure) :
    retoken f (.error e : Result α) = .error (e.retoken f) := rfl

theorem retoken_retoken (f g : Nat → Nat) (r : Result α) :
    (r.retoken f).retoken g = r.retoken fun t => g (f t) := by
  cases r with
  | ok a => rfl
  | error e =>
    cases e with
    | error e => cases e <;> rfl
    | panic p => rfl
    | endless => rfl

theorem retoken_map (f : Nat → Nat) (k : α → β) (r : Result α) :
    Result.retoken f (r.map k) = (r.retoken f).map k := by
  cases r <;> rfl

end Result

/-! ## Resolvers under two tokens -/

/-- What is found under a token. -/
def Registry.found? (r : Registry) (token : Nat) : Option Resolver :=
  (r.entry? token).map (·.resolver)

theorem Resolver.under_rename (resolver : Resolver) (t t' : Nat) (hash : Digest) :
    resolver.under t' hash = (resolver.under t hash).retoken fun _ => t' := by
  unfold under
  cases resolver hash <;> rfl

theorem Registry.resolve_rename {r r' : Registry} {t t' : Nat} (h : r'.found? t' = r.found? t)
    (hash : Digest) : r'.resolve t' hash = (r.resolve t hash).retoken fun _ => t' := by
  unfold found? at h
  cases he : r.entry? t with
  | none =>
    rw [he] at h
    unfold resolve
    rw [he, Option.map_eq_none_iff.1 h]
    rfl
  | some e =>
    rw [he] at h
    obtain ⟨e', he', hsame⟩ := Option.map_eq_some_iff.1 h
    have hresolver : e'.resolver = e.resolver := hsame
    rw [resolve_eq_under he, resolve_eq_under he', hresolver]
    exact e.resolver.under_rename t t' hash

/-- Under one token the resolver that is found decides what everyone finds. -/
theorem Registry.resolve_congr {r r' : Registry} {t : Nat} (h : r'.found? t = r.found? t) :
    r'.resolve t = r.resolve t := by
  funext hash
  unfold found? at h
  cases he : r.entry? t with
  | none =>
    rw [he, Option.map_none, Option.map_eq_none_iff] at h
    simp [resolve, he, h]
  | some e =>
    rw [he] at h
    obtain ⟨e', he', hsame⟩ := Option.map_eq_some_iff.1 h
    rw [resolve_eq_under he, resolve_eq_under he', show e'.resolver = e.resolver from hsame]

namespace Machine

/-- What is found under the other token is the same, and what is reported names that token. -/
def Renames (resolve resolve' : Resolve) (context token : Nat) : Prop :=
  ∀ hash, resolve' token hash = (resolve context hash).retoken fun _ => token

/-- A call with another token in place of the one of its machine. -/
def underToken (token : Nat) (r : Ran Machine) : Ran Machine :=
  ⟨r.result.retoken fun _ => token, r.deadline, r.machine.withToken token⟩

variable {resolve resolve' : Resolve} {token : Nat}

theorem perform_rename {m : Machine} (h : Renames resolve resolve' m.context token)
    (i : Instruction) :
    (m.withToken token).perform resolve' i =
      (m.perform resolve i).retoken fun _ => token := by
  cases i with
  | readPreimage hash =>
    show (resolve' token hash >>= _ : Result (Option Progress)) = _
    rw [h hash]
    simp only [perform]
    cases resolve m.context hash <;> rfl
  | jump target =>
    simp only [perform]
    split
    · rename_i hlt
      rw [if_pos (show target.toNat < m.program.instructions.length from hlt)]
      rfl
    · rename_i hlt
      rw [if_neg (show ¬ target.toNat < m.program.instructions.length from hlt)]
      rfl
  | readInbox inbox =>
    have hmessage : ∀ n, (m.withToken token).message? inbox n = m.message? inbox n := fun _ => rfl
    simp only [perform, hmessage, withToken_progress]
    cases m.message? inbox (nextIndex m.progress.global inbox) <;> rfl
  | mix value => rfl
  | halt => rfl
  | fail => rfl

theorem next_rename {m : Machine} (h : Renames resolve resolve' m.context token) :
    (m.withToken token).next resolve' =
      ((m.next resolve).retoken fun _ => token).map (·.withToken token) := by
  have hc : (m.withToken token).current = m.current := rfl
  unfold next
  rw [hc]
  cases hi : m.current with
  | none => rfl
  | some i =>
    dsimp only
    rw [perform_rename h i]
    cases m.perform resolve i with
    | error f => rfl
    | ok o => cases o <;> rfl

/-- Steps under another token. -/
theorem step_rename {m : Machine} (h : Renames resolve resolve' m.context token) (count : Nat)
    (d : Deadline) :
    (m.withToken token).step resolve' count d = underToken token (m.step resolve count d) := by
  induction count generalizing m d with
  | zero => rfl
  | succ count ih =>
    rw [step, step, withToken_progress]
    split
    · rfl
    · split
      · rfl
      · rw [next_rename h]
        cases hn : m.next resolve with
        | error f => rfl
        | ok m' => exact ih ((next_given hn).2.2 ▸ h) d.tick

/-- Steps up to host input under another token. -/
theorem stepUntilHostIo_rename {m : Machine} (h : Renames resolve resolve' m.context token)
    (fuel : Nat) (d : Deadline) :
    (m.withToken token).stepUntilHostIo resolve' fuel d =
      underToken token (m.stepUntilHostIo resolve fuel d) := by
  have hio : ∀ m : Machine, (m.withToken token).atHostIo = m.atHostIo := fun _ => rfl
  induction fuel generalizing m d with
  | zero => rfl
  | succ fuel ih =>
    rw [stepUntilHostIo, stepUntilHostIo, withToken_progress, hio]
    split
    · rfl
    · split
      · rfl
      · split
        · rfl
        · rw [next_rename h]
          cases hn : m.next resolve with
          | error f => rfl
          | ok m' => exact ih ((next_given hn).2.2 ▸ h) d.tick

end Machine

end Rerun
