import Mathlib.Logic.Function.Basic
import Rerun.Proofs.Handle.Family

/-!
# Tokens are words

A registry numbers its tokens, but the counter that they are drawn from is a word of 64 bits: behind
the largest word comes zero, and then all tokens come once more (`WordRegistry.register_at_end`). As
long as there is room for the next token that makes no difference. A registry that counts with words
does the same at every registration, and with every owner that a token gets or loses
(`words_register`, `words_retain`, `words_release`), and so it does along all moves of handles
(`Moves.words`).
-/

namespace Rerun

/-- A registry that counts with words. A token that comes once more takes the entry over. -/
structure WordRegistry where
  lastToken : UInt64
  entry? : UInt64 → Option Registration

namespace WordRegistry

def register (w : WordRegistry) (resolver : Resolver) : UInt64 × WordRegistry :=
  let token := w.lastToken + 1
  (token, ⟨token, Function.update w.entry? token (some ⟨resolver, 1⟩)⟩)

def retain (w : WordRegistry) (token : UInt64) : WordRegistry where
  lastToken := w.lastToken
  entry? := Function.update w.entry? token
    ((w.entry? token).map fun e => { e with owners := e.owners + 1 })

def release (w : WordRegistry) (token : UInt64) : WordRegistry where
  lastToken := w.lastToken
  entry? := Function.update w.entry? token
    ((w.entry? token).bind fun e =>
      if e.owners ≤ 1 then none else some { e with owners := e.owners - 1 })

/-- What can become of such a registry, with the tokens that are drawn on the way. -/
inductive Goes (w : WordRegistry) : List UInt64 → WordRegistry → Prop where
  | rest : Goes w [] w
  | register {tokens : List UInt64} {w' : WordRegistry} (before : Goes w tokens w')
      (resolver : Resolver) :
      Goes w (tokens ++ [(w'.register resolver).1]) (w'.register resolver).2
  | retain {tokens : List UInt64} {w' : WordRegistry} (before : Goes w tokens w')
      (token : UInt64) : Goes w tokens (w'.retain token)
  | release {tokens : List UInt64} {w' : WordRegistry} (before : Goes w tokens w')
      (token : UInt64) : Goes w tokens (w'.release token)

/-- At the end of the words the next token is that of a machine without a resolver. -/
theorem register_at_end {w : WordRegistry} (h : w.lastToken.toNat + 1 = UInt64.size)
    (resolver : Resolver) : (w.register resolver).1 = 0 := by
  have hlast : w.lastToken = -1 := UInt64.toNat_inj.1 (Nat.succ.inj h)
  show w.lastToken + 1 = 0
  rw [hlast]
  rfl

end WordRegistry

namespace Registry

/-- The registry as one that counts with words. -/
def words (r : Registry) : WordRegistry where
  lastToken := UInt64.ofNat r.lastToken
  entry? token := r.entry? token.toNat

variable {r : Registry} {token : Nat}

theorem eq_word_iff (h : token < UInt64.size) {word : UInt64} :
    word = UInt64.ofNat token ↔ word.toNat = token := by
  rw [← UInt64.toNat_inj, UInt64.toNat_ofNat_of_lt' h]

theorem words_register (h : r.HasRoom) (resolver : Resolver) :
    r.words.register resolver =
      (UInt64.ofNat (r.register resolver).1, (r.register resolver).2.words) := by
  have hnext : UInt64.ofNat r.lastToken + 1 = UInt64.ofNat (r.lastToken + 1) :=
    (UInt64.ofNat_add _ _).symm
  have hentry : WordRegistry.entry? (r.words.register resolver).2 =
      WordRegistry.entry? (r.register resolver).2.words := by
    funext word
    show Function.update r.words.entry? (UInt64.ofNat r.lastToken + 1) _ word =
      Registry.entry? (r.register resolver).2 word.toNat
    rw [hnext, Function.update_apply, entry?_register]
    simp only [eq_word_iff h]
    rfl
  unfold WordRegistry.register at hentry ⊢
  dsimp only at hentry ⊢
  rw [hentry]
  unfold words
  rw [hnext]
  rfl

theorem words_retain (h : token < UInt64.size) :
    r.words.retain (UInt64.ofNat token) = (r.retain token).words := by
  unfold WordRegistry.retain words
  dsimp only
  rw [retain_lastToken, UInt64.toNat_ofNat_of_lt' h]
  congr 1
  funext word
  rw [Function.update_apply, entry?_retain]
  simp only [eq_word_iff h]

theorem words_release (h : token < UInt64.size) :
    r.words.release (UInt64.ofNat token) = (r.release token).words := by
  unfold WordRegistry.release words
  dsimp only
  rw [release_lastToken, UInt64.toNat_ofNat_of_lt' h]
  congr 1
  funext word
  rw [Function.update_apply, entry?_release]
  simp only [eq_word_iff h]

end Registry

/-! ## Along the moves of handles -/

namespace Handle

variable {r r' : Registry} {hs hs' : List Handle} {log : List Nat}

/-- A handle has no token that was not given out. -/
theorem Balanced.family_le (b : Balanced r hs) {h : Handle} (hh : h ∈ hs) {token : Nat}
    (hf : h.family = some token) : token ≤ r.lastToken := by
  by_contra hlt
  have hnone := Registry.entry?_eq_none (Nat.not_le.1 hlt)
  have hcontains := (b.counts.contains_iff token).2 (owners_ne_zero_iff.2 ⟨h, hh, hf⟩)
  unfold Registry.contains at hcontains
  rw [hnone] at hcontains
  cases hcontains

theorem leave_words {family : Option Nat} (hf : ∀ token, family = some token → token < UInt64.size)
    {w : WordRegistry} {tokens : List UInt64} (h : w.Goes tokens r.words) :
    w.Goes tokens (leave r family).words := by
  cases family with
  | none => exact h
  | some token =>
    rw [leave, ← Registry.words_release (hf token rfl)]
    exact h.release _

/-- As long as all tokens are words, a registry that counts with words goes the same way. -/
theorem Moves.words (h : Moves r hs log r' hs') (b : Balanced r hs)
    (hfits : r'.lastToken < UInt64.size) :
    ∃ tokens : List UInt64, tokens.map UInt64.toNat = log ∧ r.words.Goes tokens r'.words := by
  induction h with
  | rest => exact ⟨[], rfl, .rest⟩
  | order before perm ih => exact ih hfits
  | change before keeps ih => exact ih hfits
  | start before context ih => exact ih hfits
  | copy before copied ih =>
    have hbalanced := before.balanced b
    obtain ⟨i, -, ⟨-, -, rfl⟩ | ⟨t, hf, -, rfl⟩⟩ := copy_eq_ok copied
    · exact ih hfits
    · rw [Registry.retain_lastToken] at hfits
      obtain ⟨tokens, hlog, hgoes⟩ := ih hfits
      have ht := hbalanced.family_le List.mem_cons_self hf
      refine ⟨tokens, hlog, ?_⟩
      rw [← Registry.words_retain (by omega)]
      exact hgoes.retain _
  | @setResolver _ _ _ _ _ _ resolver _ before given ih =>
    have hbalanced := before.balanced b
    obtain ⟨i, -, rfl, -, rfl⟩ := setResolver_eq_ok given
    rw [leave_lastToken, Registry.register_lastToken] at hfits
    obtain ⟨tokens, hlog, hgoes⟩ := ih (by omega)
    have hregistered := hgoes.register resolver
    rw [Registry.words_register hfits] at hregistered
    refine ⟨_, ?_, leave_words (fun token hf => ?_) hregistered⟩
    · rw [List.map_append, hlog, List.map_singleton]
      exact congrArg (fun token => _ ++ [token]) (UInt64.toNat_ofNat_of_lt' hfits)
    · have ht := hbalanced.family_le List.mem_cons_self hf
      omega
  | drop before ih =>
    have hbalanced := before.balanced b
    rw [Handle.drop, leave_lastToken] at hfits
    obtain ⟨tokens, hlog, hgoes⟩ := ih hfits
    refine ⟨tokens, hlog, leave_words (fun token hf => ?_) hgoes⟩
    have ht := hbalanced.family_le List.mem_cons_self hf
    omega
  | forget before gone free ih => exact ih hfits

end Handle

end Rerun
