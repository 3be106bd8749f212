import Rerun.Proofs.Bench
import Rerun.Proofs.Handle.Files
import Rerun.Proofs.Machine.Rename

/-!
# What operations at a bench leave

An operation changes at most the handle that it names, and that only by a call of it or by its end
(`perform_others`), and writes at most the file that it names (`perform_files`). Under a token that
was given out, the same is found as before or nothing any more (`Moves.found?`).
-/

namespace Rerun

/-! ## What is found under a token -/

namespace Registry

variable (r : Registry)

theorem found?_register (resolver : Resolver) {t : Nat} (ht : t ≠ r.lastToken + 1) :
    (r.register resolver).2.found? t = r.found? t := by
  unfold found?
  rw [entry?_register, if_neg ht]

/-- A further owner of a registration does not change it. -/
theorem found?_retain (token t : Nat) : (r.retain token).found? t = r.found? t := by
  unfold found?
  rw [entry?_retain]
  split
  · rename_i ht
    rw [ht, Option.map_map]
    rfl
  · rfl

/-- An owner that leaves takes at most its own registration along. -/
theorem found?_release (token t : Nat) :
    (r.release token).found? t = none ∨ (r.release token).found? t = r.found? t := by
  unfold found?
  rw [entry?_release]
  split
  · rename_i ht
    rw [ht]
    cases r.entry? token with
    | none => exact .inl rfl
    | some e =>
      rw [Option.bind_some]
      split
      · exact .inl rfl
      · exact .inr rfl
  · exact .inr rfl

variable {r}

/-- Someone who owns a token finds something under it. -/
theorem Counts.found?_ne_none {owners : Nat → Nat} (h : r.Counts owners) {t : Nat}
    (ho : owners t ≠ 0) : r.found? t ≠ none := by
  have ht := h t
  rw [if_neg ho] at ht
  obtain ⟨e, he, -⟩ := Option.map_eq_some_iff.1 ht
  unfold found?
  rw [he]
  nofun

/-- What is found was given out. -/
theorem le_lastToken_of_found? {t : Nat} (h : r.found? t ≠ none) : t ≤ r.lastToken := by
  by_contra hlt
  apply h
  unfold found?
  rw [entry?_eq_none (by omega)]
  rfl

end Registry

namespace Handle

/-- Someone has a token of a handle that is there, so something is found under it. -/
theorem Balanced.found?_ne_none {r : Registry} {hs : List Handle} (b : Balanced r hs) {h : Handle}
    (hh : h ∈ hs) {t : Nat} (ht : h.family = some t) : r.found? t ≠ none :=
  b.counts.found?_ne_none (owners_ne_zero_iff.2 ⟨h, hh, ht⟩)

theorem found?_leave (r : Registry) (family : Option Nat) (t : Nat) :
    (leave r family).found? t = none ∨ (leave r family).found? t = r.found? t := by
  cases family with
  | none => exact .inr rfl
  | some token => exact r.found?_release token t

/-- Under a token that was given out, the same is found as before or nothing any more. -/
theorem Moves.found? {r r' : Registry} {hs hs' : List Handle} {log : List Nat}
    (m : Moves r hs log r' hs') {t : Nat} (ht : t ≤ r.lastToken) :
    r'.found? t = none ∨ r'.found? t = r.found? t := by
  induction m with
  | rest => exact .inr rfl
  | order before perm ih => exact ih
  | change before keeps ih => exact ih
  | start before context ih => exact ih
  | copy before copied ih =>
    obtain ⟨i, -, ⟨-, -, rfl⟩ | ⟨u, -, -, rfl⟩⟩ := copy_eq_ok copied
    · exact ih
    · rw [Registry.found?_retain]
      exact ih
  | @setResolver log host host' h h' hs' resolver token before given ih =>
    obtain ⟨i, -, rfl, -, rfl⟩ := setResolver_eq_ok given
    have hlast := before.log_eq.1
    obtain hnone | hsame := found?_leave (host.registry.register resolver).2 h.family t
    · exact .inl hnone
    · rw [hsame, Registry.found?_register _ _ (by omega)]
      exact ih
  | @drop log host h hs' before ih =>
    obtain hnone | hsame := found?_leave host.registry h.family t
    · exact .inl hnone
    · exact hsame ▸ ih
  | forget before gone free ih => exact ih

end Handle

namespace Bench

/-! ## Whose operation it is -/

/-- Whether an operation is one on the handle with a number: a call of it, a copy, or its end. -/
def Op.isOf (k : Nat) : Op → Bool
  | .on n _ | .copy n | .drop n => n == k
  | _ => false

/-- The paths that an operation on a handle names. -/
def Op.paths : Op → List String
  | .on _ op => op.paths
  | _ => []

/-- The path of the file that an operation writes. -/
def Op.output : Op → Option String
  | .on _ (.save path) => some path
  | _ => none

variable (backend : Backend) (horizon : Nat)

section

variable {b : Bench} {h : Handle} {k : Nat}

/-- Nothing happens on a handle that is not there. -/
theorem perform_absent (op : Op) (ho : op.isOf k = true) (hn : b.handles[k]? = none) :
    b.perform backend horizon op = (.ok .absent, b) := by
  cases op with
  | on n o =>
    obtain rfl := eq_of_beq ho
    unfold perform onHandle
    dsimp only
    rw [hn]
  | copy n =>
    obtain rfl := eq_of_beq ho
    unfold perform onHandle
    dsimp only
    rw [hn]
  | drop n =>
    obtain rfl := eq_of_beq ho
    unfold perform onHandle
    dsimp only
    rw [hn]
  | load | run | openSession | ask | closeSession => cases ho

theorem perform_on (hn : b.handles[k]? = some h) (op : Handle.Op) :
    b.perform backend horizon (.on k op) =
      ((h.perform horizon b.host op).reply.map .handle,
        { b with
          host := (h.perform horizon b.host op).host
          handles := b.handles.set k (h.perform horizon b.host op).handle }) := by
  unfold perform onHandle
  dsimp only
  rw [hn]

theorem perform_drop (hn : b.handles[k]? = some h) :
    b.perform backend horizon (.drop k) =
      (.ok .done,
        { b with host := (h.drop b.host).2, handles := b.handles.set k (h.drop b.host).1 }) := by
  unfold perform onHandle
  dsimp only
  rw [hn]

theorem perform_copy {h' : Handle} {host : Host} (hn : b.handles[k]? = some h)
    (hc : h.copy b.host = .ok (h', host)) :
    b.perform backend horizon (.copy k) = { b with host }.add h' := by
  unfold perform onHandle
  dsimp only
  rw [hn]
  dsimp only
  rw [hc]

theorem perform_copy_error {f : Failure} (hn : b.handles[k]? = some h)
    (hc : h.copy b.host = .error f) : b.perform backend horizon (.copy k) = (.error f, b) := by
  unfold perform onHandle
  dsimp only
  rw [hn]
  dsimp only
  rw [hc]

/-- An operation that leaves the handle with its answer leaves the bench. -/
theorem perform_on_same {r : Result Handle.Reply} {op : Handle.Op} (hn : b.handles[k]? = some h)
    (hr : h.perform horizon b.host op = ⟨r, b.host, h⟩) :
    b.perform backend horizon (.on k op) = (r.map .handle, b) := by
  obtain ⟨hlt, rfl⟩ := List.getElem?_eq_some_iff.1 hn
  rw [perform_on backend horizon hn, hr]
  simp

theorem add_handles (b : Bench) (h : Handle) (hk : k < b.handles.length) :
    (b.add h).2.handles[k]? = b.handles[k]? :=
  List.getElem?_append_left hk

/-! ## What an operation leaves -/

/-- Only a call of a handle and its end can change it. -/
theorem perform_others {op : Op} (hk : k < b.handles.length) (hon : ∀ o, op ≠ .on k o)
    (hdrop : op ≠ .drop k) : (b.perform backend horizon op).2.handles[k]? = b.handles[k]? := by
  cases op with
  | load path =>
    unfold perform
    dsimp only
    split
    · exact add_handles b _ hk
    · rfl
  | copy n =>
    unfold perform onHandle
    dsimp only
    split
    · rfl
    · split
      · exact add_handles _ _ hk
      · rfl
  | on n o =>
    have hne : n ≠ k := by
      rintro rfl
      exact hon o rfl
    unfold perform onHandle
    dsimp only
    split
    · rfl
    · exact List.getElem?_set_ne hne
  | drop n =>
    have hne : n ≠ k := by
      rintro rfl
      exact hdrop rfl
    unfold perform onHandle
    dsimp only
    split
    · rfl
    · exact List.getElem?_set_ne hne
  | openSession n root x stepChunk =>
    unfold perform onHandle
    dsimp only
    split
    · rfl
    · dsimp only [openSession]
      split
      · rfl
      · split <;> rfl
  | run n x d way =>
    unfold perform onHandle
    dsimp only
    split <;> rfl
  | ask n d question =>
    unfold perform onSession
    dsimp only
    split <;> rfl
  | closeSession n =>
    unfold perform onSession
    dsimp only
    split <;> rfl

/-- What holds of a handle holds of it as long as its own operations keep it. -/
theorem perform_keeps {P : Handle → Prop} {op : Op}
    (hon : ∀ host h o, op = .on k o → P h → P (h.perform horizon host o).handle)
    (hdrop : ∀ host h, op = .drop k → P h → P (h.drop host).1)
    (hp : ∃ h, b.handles[k]? = some h ∧ P h) :
    ∃ h, (b.perform backend horizon op).2.handles[k]? = some h ∧ P h := by
  obtain ⟨h, hn, hh⟩ := hp
  obtain ⟨hk, -⟩ := List.getElem?_eq_some_iff.1 hn
  by_cases hisOn : ∃ o, op = .on k o
  · obtain ⟨o, rfl⟩ := hisOn
    rw [perform_on backend horizon hn]
    exact ⟨_, List.getElem?_set_self hk, hon _ _ _ rfl hh⟩
  · by_cases hisDrop : op = .drop k
    · subst hisDrop
      rw [perform_drop backend horizon hn]
      exact ⟨_, List.getElem?_set_self hk, hdrop _ _ rfl hh⟩
    · have hne : ∀ o, op ≠ .on k o := fun o ho => hisOn ⟨o, ho⟩
      rw [perform_others backend horizon hk hne hisDrop]
      exact ⟨h, hn, hh⟩

theorem performAll_keeps {P : Handle → Prop} {ops : List Op}
    (hon : ∀ host h o, .on k o ∈ ops → P h → P (h.perform horizon host o).handle)
    (hdrop : ∀ host h, .drop k ∈ ops → P h → P (h.drop host).1)
    (hp : ∃ h, b.handles[k]? = some h ∧ P h) :
    ∃ h, (b.performAll backend horizon ops).handles[k]? = some h ∧ P h := by
  induction ops generalizing b with
  | nil => exact hp
  | cons op ops ih =>
    refine ih (fun host h o ho => hon host h o (.tail _ ho))
      (fun host h ho => hdrop host h (.tail _ ho)) (perform_keeps backend horizon ?_ ?_ hp)
    · rintro host h o rfl
      exact hon host h o (.head _)
    · rintro host h rfl
      exact hdrop host h (.head _)

end

/-- An operation writes at most its output. -/
theorem perform_files (b : Bench) (op : Op) :
    (b.perform backend horizon op).2.host.files = b.host.files ∨
      ∃ path content, op.output = some path ∧
        b.host.files.write path content = .ok (b.perform backend horizon op).2.host.files := by
  cases op with
  | on n o =>
    cases hn : b.handles[n]? with
    | none =>
      rw [perform_absent backend horizon (.on n o) (beq_self_eq_true n) hn]
      exact .inl rfl
    | some h =>
      rw [perform_on backend horizon hn]
      obtain hsame | ⟨path, content, rfl, hw⟩ := Handle.perform_files horizon b.host h o
      · exact .inl hsame
      · exact .inr ⟨path, content, rfl, hw⟩
  | load path =>
    left
    unfold perform
    dsimp only
    split <;> rfl
  | copy n =>
    left
    unfold perform onHandle
    dsimp only
    split
    · rfl
    · rename_i h hn
      split
      · rename_i h' host' hc
        exact Handle.copy_files hc
      · rfl
  | drop n =>
    left
    unfold perform onHandle
    dsimp only
    split <;> rfl
  | run n x d way =>
    left
    unfold perform onHandle
    dsimp only
    split
    · rfl
    · exact Handle.runCopy_files (way.advance_spared horizon) b.host x d _
  | openSession n root x stepChunk =>
    left
    unfold perform onHandle
    dsimp only
    split
    · rfl
    · rename_i h hn
      have hprepared := Session.prepare_files b.host h x
      dsimp only [openSession]
      split
      · rename_i hp
        rw [hp] at hprepared
        exact hprepared
      · rename_i prepared host hp
        rw [hp] at hprepared
        have hopened := Session.ofPrepared_files host root prepared stepChunk
        split
        · rename_i ho
          rw [ho] at hopened
          exact hopened.trans hprepared
        · rename_i ho
          rw [ho] at hopened
          exact hopened.trans hprepared
  | ask n d question =>
    left
    unfold perform onSession
    dsimp only
    split
    · rfl
    · exact Session.job_files b.host horizon d _ question
  | closeSession n =>
    left
    unfold perform onSession
    dsimp only
    split
    · rfl
    · exact Session.close_files b.host _

theorem perform_current (b : Bench) (op : Op) :
    (b.perform backend horizon op).2.host.files.current = b.host.files.current := by
  obtain hsame | ⟨path, content, -, hw⟩ := perform_files backend horizon b op
  · rw [hsame]
  · obtain ⟨w⟩ := Files.written_of_write hw
    exact w.current_eq

end Bench

end Rerun
