import Rerun.Proofs.Lookup
import Rerun.Resolver

/-!
# Entries of a registry

What each operation on a registry does to the entry of a token, and to the number of owners that the
entries count (`Counts`).
-/

namespace Rerun.Registry

/-- The token of the next registration has no entry yet. -/
theorem entry?_eq_none {r : Registry} {t : Nat} (h : r.lastToken < t) : r.entry? t = none := by
  unfold entry?
  rw [List.lookup_eq_none_iff]
  intro e he
  have hle := r.le_lastToken e he
  have hne : t ≠ e.1 := by omega
  simpa using hne

@[simp] theorem register_lastToken (r : Registry) (resolver : Resolver) :
    (r.register resolver).2.lastToken = r.lastToken + 1 := rfl

@[simp] theorem retain_lastToken (r : Registry) (token : Nat) :
    (r.retain token).lastToken = r.lastToken := by
  unfold retain
  split <;> rfl

@[simp] theorem release_lastToken (r : Registry) (token : Nat) :
    (r.release token).lastToken = r.lastToken := by
  unfold release
  split
  · split <;> rfl
  · rfl

theorem entry?_register (r : Registry) (resolver : Resolver) (t : Nat) :
    Registry.entry? (r.register resolver).2 t =
      if t = r.lastToken + 1 then some ⟨resolver, 1⟩ else r.entry? t := by
  have h : Registry.entry? (r.register resolver).2 t =
      (r.entry? t).or (if t = r.lastToken + 1 then some ⟨resolver, 1⟩ else none) :=
    Lookup.concat r.entries (r.lastToken + 1) t ⟨resolver, 1⟩
  rw [h]
  split
  · rename_i ht
    rw [entry?_eq_none (by omega), Option.none_or]
  · rw [Option.or_none]

theorem entry?_unregister (r : Registry) (token t : Nat) :
    Registry.entry? (r.unregister token) t = if t = token then none else r.entry? t :=
  Lookup.filter_key r.entries token t

theorem entry?_setOwners (r : Registry) (token owners t : Nat) :
    Registry.entry? (r.setOwners token owners) t =
      if t = token then (r.entry? token).map fun e => { e with owners } else r.entry? t :=
  Lookup.map_key r.entries token t fun e => { e with owners }

theorem entry?_retain (r : Registry) (token t : Nat) :
    Registry.entry? (r.retain token) t =
      if t = token then (r.entry? token).map fun e => { e with owners := e.owners + 1 }
      else r.entry? t := by
  unfold retain
  split
  · rename_i e he
    rw [entry?_setOwners, he]
    rfl
  · rename_i he
    rw [he]
    split
    · rename_i ht
      rw [ht, he]
      rfl
    · rfl

theorem entry?_release (r : Registry) (token t : Nat) :
    Registry.entry? (r.release token) t =
      if t = token then
        (r.entry? token).bind fun e =>
          if e.owners ≤ 1 then none else some { e with owners := e.owners - 1 }
      else r.entry? t := by
  unfold release
  split
  · rename_i e he
    rw [he, Option.bind_some]
    split
    · exact entry?_unregister r token t
    · rw [entry?_setOwners, he]
      rfl
  · rename_i he
    rw [he]
    split
    · rename_i ht
      rw [ht, he]
      rfl
    · rfl

/-! ## Owners -/

/-- The entries count as many owners as `owners` says, and there is one for every token that has
an owner. -/
def Counts (r : Registry) (owners : Nat → Nat) : Prop :=
  ∀ t, (r.entry? t).map Registration.owners = if owners t = 0 then none else some (owners t)

variable {r : Registry} {owners : Nat → Nat}

theorem Counts.contains_iff (h : r.Counts owners) (t : Nat) :
    r.contains t = true ↔ owners t ≠ 0 := by
  have ht := h t
  unfold contains
  cases he : r.entry? t with
  | none =>
    rw [he] at ht
    by_cases h0 : owners t = 0
    · simp [h0]
    · simp [h0] at ht
  | some e =>
    rw [he] at ht
    by_cases h0 : owners t = 0
    · simp [h0] at ht
    · simp [h0]

/-- The next token has no owners yet. -/
theorem Counts.fresh (h : r.Counts owners) : owners (r.lastToken + 1) = 0 := by
  have ht := h (r.lastToken + 1)
  rw [entry?_eq_none (Nat.lt_succ_self _)] at ht
  by_cases h0 : owners (r.lastToken + 1) = 0
  · exact h0
  · simp [h0] at ht

theorem Counts.register (h : r.Counts owners) (resolver : Resolver) :
    (r.register resolver).2.Counts fun t => if t = r.lastToken + 1 then 1 else owners t := by
  intro t
  rw [entry?_register]
  by_cases ht : t = r.lastToken + 1
  · simp [ht]
  · simp only [ht, if_false]
    exact h t

theorem Counts.retain (h : r.Counts owners) {token : Nat} (ho : owners token ≠ 0) :
    (r.retain token).Counts fun t => if t = token then owners t + 1 else owners t := by
  intro t
  rw [entry?_retain]
  by_cases ht : t = token
  · subst ht
    have he := h t
    rw [if_neg ho] at he
    obtain ⟨e, he, heo⟩ := Option.map_eq_some_iff.1 he
    simp [he, heo]
  · simp only [ht, if_false]
    exact h t

theorem Counts.release (h : r.Counts owners) (token : Nat) :
    (r.release token).Counts fun t => if t = token then owners t - 1 else owners t := by
  intro t
  rw [entry?_release]
  by_cases ht : t = token
  · subst ht
    have he := h t
    simp only [if_true]
    by_cases h0 : owners t = 0
    · rw [if_pos h0, Option.map_eq_none_iff] at he
      simp [he, h0]
    · rw [if_neg h0] at he
      obtain ⟨e, he, heo⟩ := Option.map_eq_some_iff.1 he
      rw [he, Option.bind_some]
      by_cases h1 : owners t = 1
      · simp [heo, h1]
      · have hgt : ¬ owners t ≤ 1 := by omega
        have hne : ¬ owners t - 1 = 0 := by omega
        simp [heo, hgt, hne]
  · simp only [ht, if_false]
    exact h t

end Rerun.Registry
