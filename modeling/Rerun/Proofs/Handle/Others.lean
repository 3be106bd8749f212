import Rerun.Proofs.Bench.Frame

/-!
# What others find under their tokens

All handles share one registry, and nobody touches the registration of anybody else. Whatever
becomes of some handles, the registry stays in step with all of them, and the others find under
their tokens what they found before (`LeavesOthers`). That goes for moves (`Moves.leavesOthers`) and
for a run on a copy, which leaves the entries of the registry as they were (`runCopy_entries`).
-/

namespace Rerun

namespace Registry

variable {r : Registry} {owners : Nat → Nat}

/-- Whether every registration has an owner. -/
def IsOwned (r : Registry) : Prop := ∀ t e, r.entry? t = some e → e.owners ≠ 0

theorem Counts.isOwned (h : r.Counts owners) : r.IsOwned := by
  intro t e he h0
  have ht := h t
  rw [he, Option.map_some, h0] at ht
  split at ht
  · cases ht
  · rename_i hne
    exact hne (Option.some.inj ht).symm

/-- A further owner that leaves again takes nothing along. -/
theorem entry?_release_retain (h : r.IsOwned) (token t : Nat) :
    Registry.entry? ((r.retain token).release token) t = r.entry? t := by
  rw [entry?_release]
  simp only [entry?_retain, if_true]
  split
  · rename_i ht
    subst ht
    cases he : r.entry? t with
    | none => rfl
    | some e =>
      have hpos : ¬ e.owners + 1 ≤ 1 := by
        have := h t e he
        omega
      simp [hpos]
  · rfl

/-- So does a first owner. -/
theorem entry?_release_register (r : Registry) (resolver : Resolver) (t : Nat) :
    Registry.entry? ((r.register resolver).2.release (r.lastToken + 1)) t = r.entry? t := by
  rw [entry?_release]
  simp only [entry?_register, if_true]
  split
  · rename_i ht
    rw [entry?_eq_none (by omega)]
    rfl
  · rfl

end Registry

namespace Handle

/-! ## Others -/

/-- Whatever became of a registry and some handles: with any other handles around, the registry is
still in step with all of them, and the others find what they found before. -/
def LeavesOthers (r : Registry) (hs : List Handle) (r' : Registry) (hs' : List Handle) : Prop :=
  ∀ rest, Balanced r (hs ++ rest) → Balanced r' (hs' ++ rest) ∧
    ∀ h ∈ rest, ∀ t, h.family = some t → r'.found? t = r.found? t

namespace LeavesOthers

variable {r r' r'' : Registry} {hs hs' hs'' : List Handle}

theorem refl (r : Registry) (hs : List Handle) : LeavesOthers r hs r hs :=
  fun _ b => ⟨b, fun _ _ _ _ => rfl⟩

theorem trans (h : LeavesOthers r hs r' hs') (h' : LeavesOthers r' hs' r'' hs'') :
    LeavesOthers r hs r'' hs'' := by
  intro rest b
  obtain ⟨b', hfound⟩ := h rest b
  obtain ⟨b'', hfound'⟩ := h' rest b'
  exact ⟨b'', fun x hx t ht => (hfound' x hx t ht).trans (hfound x hx t ht)⟩

/-- More handles are left alone. -/
theorem frame (h : LeavesOthers r hs r' hs') (more : List Handle) :
    LeavesOthers r (hs ++ more) r' (hs' ++ more) := by
  intro rest b
  rw [List.append_assoc] at b ⊢
  obtain ⟨b', hfound⟩ := h (more ++ rest) b
  exact ⟨b', fun x hx => hfound x (List.mem_append_right more hx)⟩

/-- The order in which the handles are told does not matter. -/
theorem within (h : LeavesOthers r hs r' hs') {all all' : List Handle} (p : all.Perm hs)
    (p' : all'.Perm hs') : LeavesOthers r all r' all' := by
  intro rest b
  obtain ⟨b', hfound⟩ := h rest (b.perm (p.append_right rest))
  exact ⟨b'.perm (p'.symm.append_right rest), hfound⟩

/-- A registry with the same entries will do for the same handles. -/
theorem of_entries (h : r.IsOwned → ∀ t, r'.entry? t = r.entry? t) (hs : List Handle) :
    LeavesOthers r hs r' hs := by
  intro rest b
  have hsame := h b.counts.isOwned
  refine ⟨⟨fun t => ?_, b.sound⟩, fun x hx t ht => ?_⟩
  · rw [hsame]
    exact b.counts t
  · unfold Registry.found?
    rw [hsame]

/-- A new family gets a token that nobody has. -/
theorem register (r : Registry) (resolver : Resolver) {h : Handle}
    (hf : h.family = some (r.lastToken + 1)) (hs : h.Sound) :
    LeavesOthers r [] (r.register resolver).2 [h] := by
  intro rest b
  refine ⟨b.register resolver hf hs, fun x hx t ht => ?_⟩
  have hle := Registry.le_lastToken_of_found? (b.found?_ne_none hx ht)
  exact r.found?_register resolver (by omega)

end LeavesOthers

/-- Moves leave the handles of others alone. -/
theorem Moves.leavesOthers {r r' : Registry} {hs hs' : List Handle} {log : List Nat}
    (m : Moves r hs log r' hs') : LeavesOthers r hs r' hs' := by
  intro rest b
  have b' := (m.frame rest).balanced b
  refine ⟨b', fun x hx t ht => ?_⟩
  have hold := b.found?_ne_none (List.mem_append_right hs hx) ht
  have hnew := b'.found?_ne_none (List.mem_append_right hs' hx) ht
  obtain hnone | hsame := m.found? (Registry.le_lastToken_of_found? hold)
  · exact absurd hnone hnew
  · exact hsame

/-! ## Runs -/

/-- A registry after a copy of a handle was made. -/
def joined (r : Registry) (family : Option Nat) : Registry :=
  match family with
  | some token => r.retain token
  | none => r

@[simp] theorem joined_lastToken (r : Registry) (family : Option Nat) :
    (joined r family).lastToken = r.lastToken := by
  cases family <;> simp [joined]

theorem copy_joined {h h' : Handle} {host host' : Host} (hc : h.copy host = .ok (h', host')) :
    h'.family = h.family ∧ host'.registry = joined host.registry h.family := by
  obtain ⟨i, -, ⟨hf, rfl, rfl⟩ | ⟨t, hf, rfl, rfl⟩⟩ := copy_eq_ok hc
  · rw [hf]
    exact ⟨rfl, rfl⟩
  · rw [hf]
    exact ⟨rfl, rfl⟩

/-- An input starts a family with its resolver, and its handle leaves the old one. -/
theorem supply_eq_ok {h h' : Handle} {host host' : Host} {x : Input}
    (hs : h.supply host x = .ok (h', host')) :
    h'.family = some (host.registry.lastToken + 1) ∧
      host'.registry = leave (host.registry.register x.resolver).2 h.family := by
  obtain ⟨h₁, hg, hs⟩ := Result.of_bind hs
  obtain ⟨h₂, hm, hs⟩ := Result.of_bind hs
  obtain ⟨h₃, hd, hs⟩ := Result.of_bind hs
  obtain ⟨⟨token, h₄, host₄⟩, hr, hs⟩ := Result.of_bind hs
  cases hs
  have hkeeps := ((setGlobal_keeps hg).trans (addMessages_keeps hm)).trans (addMessages_keeps hd)
  obtain ⟨i, -, rfl, rfl, rfl⟩ := setResolver_eq_ok (Instance.lift_eq_ok hr)
  rw [hkeeps.family]
  exact ⟨rfl, rfl⟩

section

variable {r : Registry} (ho : r.IsOwned) (family : Option Nat)

include ho

theorem entry?_leave_joined (t : Nat) :
    Registry.entry? (leave (joined r family) family) t = r.entry? t := by
  cases family with
  | none => rfl
  | some token => exact Registry.entry?_release_retain ho token t

/-- A copy that gets a resolver leaves its family before its own token is let go of. -/
theorem entry?_leave_register (resolver : Resolver) (t : Nat) :
    Registry.entry? ((leave ((joined r family).register resolver).2 family).release
      ((joined r family).lastToken + 1)) t = r.entry? t := by
  cases family with
  | none => exact r.entry?_release_register resolver t
  | some token =>
    have hkept := Registry.entry?_release_retain ho token
    simp only [joined, leave, Registry.retain_lastToken, Registry.entry?_release,
      Registry.entry?_register] at hkept ⊢
    by_cases ht : t = r.lastToken + 1
    · subst ht
      rw [if_pos rfl, Registry.entry?_eq_none (Nat.lt_succ_self _)]
      by_cases hu : r.lastToken + 1 = token
      · simp [hu]
      · simp [hu]
    · rw [if_neg ht]
      by_cases hu : t = token
      · subst hu
        have hsame := hkept t
        rw [if_pos rfl] at hsame ⊢
        rw [if_neg ht]
        exact hsame
      · have hsame := hkept t
        rw [if_neg hu] at hsame ⊢
        rw [if_neg ht]
        exact hsame

end

/-- A run on a copy leaves the entries of the registry as they were. -/
theorem runCopy_entries {advance : Advance} (ha : ∀ host d h, Spared h host (advance host d h))
    {host : Host} (ho : host.registry.IsOwned) (x : Input) (d : Deadline) (source : Handle)
    (t : Nat) :
    Registry.entry? (source.runCopy host x d advance).host.registry t =
      host.registry.entry? t := by
  unfold runCopy
  cases hc : source.copy host with
  | error f => rfl
  | ok r =>
    obtain ⟨h, host₁⟩ := r
    obtain ⟨hfamily, hjoined⟩ := copy_joined hc
    dsimp only
    cases hs : h.supply host₁ x with
    | error f =>
      show Registry.entry? (leave host₁.registry h.family) t = _
      rw [hfamily, hjoined]
      exact entry?_leave_joined ho _ t
    | ok r =>
      obtain ⟨h', host₂⟩ := r
      obtain ⟨hfamily', hsupplied⟩ := supply_eq_ok hs
      have hspared := ha host₂ d h'
      unfold finish drop
      dsimp only
      rw [hspared.registry, hspared.keeps.family, hfamily', hsupplied, hjoined, hfamily]
      exact entry?_leave_register ho _ x.resolver t

end Handle

end Rerun
