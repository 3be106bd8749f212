import Rerun.Handle.Op
import Rerun.Handle.Run
import Rerun.Proofs.Engine
import Rerun.Proofs.Registry

/-!
# Families

Whatever is done with handles, what becomes of the registry comes down to a few moves: a machine is
changed, a handle is new, copied, given a resolver, or dropped (`Moves`). Every move keeps the
registry and the handles balanced (`Moves.balanced`), and the tokens that are given out on the way
follow on each other (`Moves.log_eq`). An operation on some handles makes its moves among any others
(`Moves.within`).
-/

namespace Rerun.Handle

/-! ## Families of handles -/

/-- How many handles belong to the family of a token. -/
def owners (hs : List Handle) (t : Nat) : Nat := hs.countP fun h => h.family = some t

@[simp] theorem owners_nil (t : Nat) : owners [] t = 0 := rfl

theorem owners_cons (h : Handle) (hs : List Handle) (t : Nat) :
    owners (h :: hs) t = if h.family = some t then owners hs t + 1 else owners hs t := by
  unfold owners
  rw [List.countP_cons]
  by_cases ht : h.family = some t <;> simp [ht]

theorem owners_perm {hs hs' : List Handle} (h : hs.Perm hs') : owners hs = owners hs' := by
  funext t
  exact h.countP_eq _

theorem owners_cons_none {h : Handle} (hf : h.family = none) (hs : List Handle) :
    owners (h :: hs) = owners hs := by
  funext t
  simp [owners_cons, hf]

theorem owners_ne_zero_iff {hs : List Handle} {t : Nat} :
    owners hs t ≠ 0 ↔ ∃ h ∈ hs, h.family = some t := by
  unfold owners
  rw [← Nat.pos_iff_ne_zero, List.countP_pos_iff]
  simp

/-- What holds of every handle: it has a family only as long as it has its machine, which asks for
content under the token of the family, or under zero. -/
structure Sound (h : Handle) : Prop where
  family_of_gone : h.machine = none → h.family = none
  context_eq : ∀ i, h.machine = some i → i.context = h.family.getD 0

/-- The registry and some handles agree on who owns what. -/
structure Balanced (r : Registry) (hs : List Handle) : Prop where
  counts : r.Counts (owners hs)
  sound : ∀ h ∈ hs, h.Sound

/-- A handle became another one with the same family, without or with the same token. -/
structure Keeps (h h' : Handle) : Prop where
  family : h'.family = h.family
  context : h'.machine.map Instance.context = h.machine.map Instance.context

theorem Keeps.refl (h : Handle) : h.Keeps h := ⟨rfl, rfl⟩

theorem Keeps.trans {h h' h'' : Handle} (k : h.Keeps h') (k' : h'.Keeps h'') : h.Keeps h'' :=
  ⟨k'.family.trans k.family, k'.context.trans k.context⟩

theorem Keeps.sound {h h' : Handle} (k : h.Keeps h') (hs : h.Sound) : h'.Sound where
  family_of_gone := by
    intro hm
    have hc := k.context
    rw [hm, Option.map_none] at hc
    rw [k.family]
    exact hs.family_of_gone (Option.map_eq_none_iff.1 hc.symm)
  context_eq := by
    intro i hm
    have hc := k.context
    rw [hm, Option.map_some] at hc
    obtain ⟨j, hj, hji⟩ := Option.map_eq_some_iff.1 hc.symm
    rw [k.family, ← hji]
    exact hs.context_eq j hj

/-! ## What single operations do -/

theorem live_eq_ok {h : Handle} {i : Instance} (hl : h.live = .ok i) : h.machine = some i := by
  unfold live at hl
  split at hl
  · cases hl
  · rename_i hm
    cases hl
    exact hm

theorem unfrozen_eq_ok {h : Handle} {i : Instance} (hu : h.unfrozen = .ok i) :
    h.machine = some i ∧ h.isFrozen = false := by
  obtain ⟨j, hl, hu⟩ := Result.of_bind hu
  cases hf : h.isFrozen with
  | true => rw [hf] at hu; cases hu
  | false =>
    rw [hf] at hu
    cases hu
    exact ⟨live_eq_ok hl, rfl⟩

/-- A copy joins the family, and is bound to its token. -/
theorem copy_eq_ok {h h' : Handle} {host host' : Host} (hc : h.copy host = .ok (h', host')) :
    ∃ i, h.machine = some i ∧
      (h.family = none ∧ h' = ⟨some i, false, none⟩ ∧ host' = host ∨
        ∃ t, h.family = some t ∧ h' = ⟨some (i.setContext t), false, some t⟩ ∧
          host' = { host with registry := host.registry.retain t }) := by
  obtain ⟨i, hl, hlive⟩ := Result.of_bind hc
  obtain ⟨i', hi, hcopy⟩ := Result.of_bind hlive
  obtain rfl := Instance.copy_eq hi
  refine ⟨i', live_eq_ok (Instance.lift_eq_ok hl), ?_⟩
  cases hf : h.family with
  | none =>
    rw [hf] at hcopy
    cases hcopy
    exact .inl ⟨rfl, rfl, rfl⟩
  | some t =>
    rw [hf] at hcopy
    cases hcopy
    exact .inr ⟨t, rfl, rfl, rfl⟩

/-- A resolver is registered before the old family is left. -/
theorem setResolver_eq_ok {h h' : Handle} {host host' : Host} {resolver : Resolver} {token : Nat}
    (hs : h.setResolver host resolver = .ok (token, h', host')) :
    ∃ i, h.machine = some i ∧ token = host.registry.lastToken + 1 ∧
      h' = ⟨some (i.setContext token), h.isFrozen, some token⟩ ∧
      host' = { host with registry := leave (host.registry.register resolver).2 h.family } := by
  obtain ⟨i, hu, hs⟩ := Result.of_bind hs
  cases hs
  exact ⟨i, (unfrozen_eq_ok hu).1, rfl, rfl, rfl⟩

@[simp] theorem leave_lastToken (r : Registry) (family : Option Nat) :
    (leave r family).lastToken = r.lastToken := by
  cases family <;> simp [leave]

/-! ## Keeping the balance -/

section balance

variable {r : Registry} {h : Handle} {hs hs' : List Handle}

theorem Balanced.perm (b : Balanced r hs) (p : hs.Perm hs') : Balanced r hs' where
  counts := owners_perm p ▸ b.counts
  sound h hh := b.sound h (p.mem_iff.2 hh)

theorem Balanced.change {h' : Handle} (b : Balanced r (h :: hs)) (k : h.Keeps h') :
    Balanced r (h' :: hs) where
  counts := by
    have hsame : owners (h' :: hs) = owners (h :: hs) := by
      funext t
      rw [owners_cons, owners_cons, k.family]
    rw [hsame]
    exact b.counts
  sound := by
    have hsound := b.sound
    simp only [List.forall_mem_cons] at hsound ⊢
    exact ⟨k.sound hsound.1, hsound.2⟩

/-- A handle without a family changes nothing. -/
theorem Balanced.single (b : Balanced r hs) (hf : h.family = none) (h0 : h.Sound) :
    Balanced r (h :: hs) where
  counts := (owners_cons_none hf hs).symm ▸ b.counts
  sound := by simpa using ⟨h0, b.sound⟩

theorem Balanced.retain (b : Balanced r hs) {t : Nat} (ht : ∃ h ∈ hs, h.family = some t)
    (hf : h.family = some t) (h0 : h.Sound) : Balanced (r.retain t) (h :: hs) where
  counts := by
    have hsame : owners (h :: hs) = fun u => if u = t then owners hs u + 1 else owners hs u := by
      funext u
      rw [owners_cons, hf]
      by_cases hu : u = t
      · simp [hu]
      · simp [hu, Ne.symm hu]
    rw [hsame]
    exact b.counts.retain (owners_ne_zero_iff.2 ht)
  sound := by simpa using ⟨h0, b.sound⟩

theorem Balanced.register (b : Balanced r hs) (resolver : Resolver)
    (hf : h.family = some (r.lastToken + 1)) (h0 : h.Sound) :
    Balanced (r.register resolver).2 (h :: hs) where
  counts := by
    have hsame : owners (h :: hs) =
        fun u => if u = r.lastToken + 1 then 1 else owners hs u := by
      funext u
      rw [owners_cons, hf]
      by_cases hu : u = r.lastToken + 1
      · simp [hu, b.counts.fresh]
      · simp [hu, Ne.symm hu]
    rw [hsame]
    exact b.counts.register resolver
  sound := by simpa using ⟨h0, b.sound⟩

theorem Balanced.leave (b : Balanced r (h :: hs)) : Balanced (leave r h.family) hs where
  counts := by
    cases hf : h.family with
    | none =>
      rw [← owners_cons_none hf hs]
      exact b.counts
    | some t =>
      have hsame : owners hs =
          fun u => if u = t then owners (h :: hs) u - 1 else owners (h :: hs) u := by
        funext u
        rw [owners_cons, hf]
        by_cases hu : u = t
        · simp [hu]
        · simp [hu, Ne.symm hu]
      rw [hsame]
      exact b.counts.release t
  sound h' hh := b.sound h' (List.mem_cons_of_mem h hh)

theorem Balanced.copy {h' : Handle} {host host' : Host}
    (b : Balanced host.registry (h :: hs)) (hc : h.copy host = .ok (h', host')) :
    Balanced host'.registry (h' :: h :: hs) := by
  obtain ⟨i, hi, ⟨hf, rfl, rfl⟩ | ⟨t, hf, rfl, rfl⟩⟩ := copy_eq_ok hc
  · refine b.single rfl ⟨fun _ => rfl, ?_⟩
    rintro j ⟨⟩
    rw [(b.sound h (by simp)).context_eq _ hi, hf]
  · refine b.retain ⟨h, by simp, hf⟩ rfl ⟨by simp, ?_⟩
    rintro j ⟨⟩
    simp

theorem Balanced.setResolver {h' : Handle} {host host' : Host} {resolver : Resolver}
    {token : Nat} (b : Balanced host.registry (h :: hs))
    (hs' : h.setResolver host resolver = .ok (token, h', host')) :
    Balanced host'.registry (h' :: hs) := by
  obtain ⟨i, -, rfl, rfl, rfl⟩ := setResolver_eq_ok hs'
  refine ((b.register resolver rfl ⟨by simp, ?_⟩).perm (.swap ..)).leave
  rintro j ⟨⟩
  simp

end balance

/-! ## Moves -/

/-- What can become of a registry and some handles. The log holds the tokens that are given out on
the way, the last one at the end. -/
inductive Moves (r : Registry) (hs : List Handle) : List Nat → Registry → List Handle → Prop where
  | rest : Moves r hs [] r hs
  | order {log : List Nat} {r' : Registry} {hs' hs'' : List Handle}
      (before : Moves r hs log r' hs') (perm : hs'.Perm hs'') : Moves r hs log r' hs''
  /-- A machine goes on, or its handle is frozen. -/
  | change {log : List Nat} {r' : Registry} {h h' : Handle} {hs' : List Handle}
      (before : Moves r hs log r' (h :: hs')) (keeps : h.Keeps h') : Moves r hs log r' (h' :: hs')
  | start {log : List Nat} {r' : Registry} {hs' : List Handle} {i : Instance}
      (before : Moves r hs log r' hs') (context : i.context = 0) :
      Moves r hs log r' (ofInstance i :: hs')
  | copy {log : List Nat} {host host' : Host} {h h' : Handle} {hs' : List Handle}
      (before : Moves r hs log host.registry (h :: hs'))
      (copied : h.copy host = .ok (h', host')) : Moves r hs log host'.registry (h' :: h :: hs')
  | setResolver {log : List Nat} {host host' : Host} {h h' : Handle} {hs' : List Handle}
      {resolver : Resolver} {token : Nat} (before : Moves r hs log host.registry (h :: hs'))
      (given : h.setResolver host resolver = .ok (token, h', host')) :
      Moves r hs (log ++ [token]) host'.registry (h' :: hs')
  | drop {log : List Nat} {host : Host} {h : Handle} {hs' : List Handle}
      (before : Moves r hs log host.registry (h :: hs')) :
      Moves r hs log (h.drop host).2.registry ((h.drop host).1 :: hs')
  /-- A handle without its machine and family is out of reach. -/
  | forget {log : List Nat} {r' : Registry} {h : Handle} {hs' : List Handle}
      (before : Moves r hs log r' (h :: hs')) (gone : h.machine = none) (free : h.family = none) :
      Moves r hs log r' hs'

namespace Moves

variable {r r' r'' : Registry} {hs hs' hs'' : List Handle} {log log' : List Nat}

theorem trans (h : Moves r hs log r' hs') (h' : Moves r' hs' log' r'' hs'') :
    Moves r hs (log ++ log') r'' hs'' := by
  induction h' with
  | rest => rwa [List.append_nil]
  | order before perm ih => exact ih.order perm
  | change before keeps ih => exact ih.change keeps
  | start before context ih => exact ih.start context
  | copy before copied ih => exact ih.copy copied
  | setResolver before given ih =>
    rw [← List.append_assoc]
    exact ih.setResolver given
  | drop before ih => exact ih.drop
  | forget before gone free ih => exact ih.forget gone free

/-- Moves of some handles are moves of more of them. -/
theorem frame (h : Moves r hs log r' hs') (rest : List Handle) :
    Moves r (hs ++ rest) log r' (hs' ++ rest) := by
  induction h with
  | rest => exact .rest
  | order before perm ih => exact ih.order (perm.append_right rest)
  | change before keeps ih => exact ih.change keeps
  | start before context ih => exact ih.start context
  | copy before copied ih => exact ih.copy copied
  | setResolver before given ih => exact ih.setResolver given
  | drop before ih => exact ih.drop
  | forget before gone free ih => exact ih.forget gone free

/-- Moves of some handles among others, in whatever order they are told. -/
theorem within (h : Moves r hs log r' hs') {all all' rest : List Handle}
    (p : all.Perm (hs ++ rest)) (p' : all'.Perm (hs' ++ rest)) : Moves r all log r' all' :=
  ((Moves.rest.order p).trans (h.frame rest)).order p'.symm

/-- Every move keeps the balance. -/
theorem balanced (h : Moves r hs log r' hs') (b : Balanced r hs) : Balanced r' hs' := by
  induction h with
  | rest => exact b
  | order before perm ih => exact ih.perm perm
  | change before keeps ih => exact ih.change keeps
  | start before context ih =>
    refine ih.single rfl ⟨fun _ => rfl, ?_⟩
    rintro j ⟨⟩
    exact context
  | copy before copied ih => exact ih.copy copied
  | setResolver before given ih => exact ih.setResolver given
  | drop before ih => exact ih.leave.single rfl ⟨fun _ => rfl, by rintro j ⟨⟩⟩
  | forget before gone free ih =>
    have hl := ih.leave
    rwa [free] at hl

/-- The tokens that are given out are numbered consecutively. -/
theorem log_eq (h : Moves r hs log r' hs') :
    r'.lastToken = r.lastToken + log.length ∧
      log = List.range' (r.lastToken + 1) log.length := by
  induction h with
  | rest => exact ⟨rfl, rfl⟩
  | order before perm ih => exact ih
  | change before keeps ih => exact ih
  | start before context ih => exact ih
  | copy before copied ih =>
    obtain ⟨i, -, ⟨-, -, rfl⟩ | ⟨t, -, -, rfl⟩⟩ := copy_eq_ok copied
    · exact ih
    · simpa using ih
  | setResolver before given ih =>
    obtain ⟨i, -, rfl, -, rfl⟩ := setResolver_eq_ok given
    obtain ⟨hlast, hlog⟩ := ih
    refine ⟨?_, ?_⟩
    · simp [leave_lastToken, hlast, Nat.add_assoc]
    · rw [List.length_append, List.length_singleton, List.range'_concat, ← hlog, hlast]
      simp [Nat.add_right_comm]
  | drop before ih => simpa [Handle.drop, leave_lastToken] using ih
  | forget before gone free ih => exact ih

/-- Later tokens are greater. -/
theorem log_increasing (h : Moves r hs log r' hs') : log.Pairwise (· < ·) := by
  rw [h.log_eq.2]
  exact List.pairwise_lt_range'

/-- None of them was given out before. -/
theorem lt_of_mem_log (h : Moves r hs log r' hs') {t : Nat} (ht : t ∈ log) : r.lastToken < t := by
  rw [h.log_eq.2, List.mem_range'_1] at ht
  omega

end Moves

end Rerun.Handle
