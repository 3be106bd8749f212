import Mathlib.Data.List.Perm.Basic
import Rerun.Bench
import Rerun.Proofs.Handle.Operation
import Rerun.Proofs.MachinePair
import Rerun.Proofs.Registry.Words

/-!
# Families of many handles

Whatever is done at a bench, the registry has entries for just those tokens that a live handle owns
(`families_in_step`). Every operation at the bench comes down to moves of the handles there
(`perform_moves`), and so does any number of them (`performAll_moves`). That tokens increase and do
not come back holds up to the end of the words that they are drawn from, which is a hypothesis.
-/

namespace Rerun.Bench

open Handle (Moves Balanced)

/-! ## One handle or session among the others -/

theorem everyHandle_set {b : Bench} {n : Nat} {h : Handle} (hn : b.handles[n]? = some h) :
    ∃ rest, b.everyHandle.Perm (h :: rest) ∧ ∀ (h' : Handle) (host : Host),
      (everyHandle { b with host, handles := b.handles.set n h' }).Perm (h' :: rest) := by
  obtain ⟨hlt, rfl⟩ := List.getElem?_eq_some_iff.1 hn
  refine ⟨b.handles.eraseIdx n ++ b.sessions.flatMap Session.handles, ?_, ?_⟩
  · exact ((List.getElem_cons_eraseIdx_perm hlt).symm).append_right _
  · intro h' host
    exact (List.set_perm_cons_eraseIdx hlt h').append_right _

theorem everyHandle_setSession {b : Bench} {n : Nat} {s : Session}
    (hn : b.sessions[n]? = some s) :
    ∃ rest, b.everyHandle.Perm (s.handles ++ rest) ∧ ∀ (s' : Session) (host : Host),
      (everyHandle { b with host, sessions := b.sessions.set n s' }).Perm (s'.handles ++ rest) := by
  obtain ⟨hlt, rfl⟩ := List.getElem?_eq_some_iff.1 hn
  have hone : ∀ ss : List Session, ∀ s : Session, ss.Perm (s :: b.sessions.eraseIdx n) →
      (b.handles ++ ss.flatMap Session.handles).Perm
        (s.handles ++ (b.handles ++ (b.sessions.eraseIdx n).flatMap Session.handles)) := by
    intro ss s p
    exact ((p.flatMap_right Session.handles).append_left b.handles).trans
      (List.perm_append_comm_assoc _ _ _)
  refine ⟨b.handles ++ (b.sessions.eraseIdx n).flatMap Session.handles, ?_, ?_⟩
  · exact hone _ _ (List.getElem_cons_eraseIdx_perm hlt).symm
  · intro s' host
    exact hone _ _ (List.set_perm_cons_eraseIdx hlt s')

theorem everyHandle_add (b : Bench) (h : Handle) :
    (b.add h).2.everyHandle.Perm (h :: b.everyHandle) := by
  have hassoc : (b.add h).2.everyHandle =
      b.handles ++ h :: b.sessions.flatMap Session.handles := List.append_assoc _ [h] _
  rw [hassoc]
  exact List.perm_middle

/-! ## Operations -/

variable (backend : Backend) (horizon : Nat)

theorem openSession_moves (b : Bench) (h : Handle) (hh : ∃ rest, b.everyHandle.Perm (h :: rest))
    (root : Digest) (x : Input) (stepChunk : UInt64) :
    ∃ log, Moves b.host.registry b.everyHandle log
      (b.openSession h root x stepChunk).2.host.registry
      (b.openSession h root x stepChunk).2.everyHandle := by
  obtain ⟨rest, p⟩ := hh
  obtain ⟨log, hprepared⟩ := Session.prepare_moves b.host h x
  unfold openSession
  cases hp : Session.prepare b.host h x with
  | mk prepared host =>
    rw [hp] at hprepared
    cases prepared with
    | error f => exact ⟨log, hprepared.within p p⟩
    | ok prepared =>
      have hopened := Session.ofPrepared_moves host root prepared stepChunk
      dsimp only
      cases ho : Session.ofPrepared host root prepared stepChunk with
      | mk s host' =>
        rw [ho] at hopened
        have hall := (hprepared.trans (hopened.frame [h])).within p (List.Perm.refl _)
        cases s with
        | error f => exact ⟨_, hall.order p.symm⟩
        | ok s =>
          -- the session comes behind all others
          refine ⟨_, hall.order ?_⟩
          have hlast : everyHandle { b with host := host', sessions := b.sessions ++ [s] } =
              b.everyHandle ++ s.handles := by
            simp [everyHandle, Session.handles]
          rw [hlast]
          have hswap : (s.handles ++ h :: rest).Perm (h :: rest ++ s.handles) :=
            List.perm_append_comm
          exact hswap.trans (p.symm.append_right _)

/-- Every operation comes down to moves of the handles at the bench. -/
theorem perform_moves (b : Bench) (op : Op) :
    ∃ log, Moves b.host.registry b.everyHandle log (b.perform backend horizon op).2.host.registry
        (b.perform backend horizon op).2.everyHandle ∧
      ∀ n resolver t, op = .on n (.setResolver resolver) →
        (b.perform backend horizon op).1 = .ok (.handle (.token (some t))) → log = [t] := by
  cases op with
  | load path =>
    refine ⟨[], ?_, nofun⟩
    unfold perform
    dsimp only
    cases hl : backend.load b.host.files path with
    | error f => exact .rest
    | ok i =>
      exact (Moves.rest.start (Backend.load_context hl)).order (everyHandle_add b _).symm
  | copy n =>
    refine ⟨[], ?_, nofun⟩
    unfold perform onHandle
    dsimp only
    cases hn : b.handles[n]? with
    | none => exact .rest
    | some h =>
      dsimp only
      cases hc : h.copy b.host with
      | error f => exact .rest
      | ok r =>
        obtain ⟨h', host'⟩ := r
        obtain ⟨rest, p, -⟩ := everyHandle_set hn
        exact (Handle.copy_moves hc).within p ((everyHandle_add _ h').trans (p.cons h'))
  | on n op =>
    unfold perform onHandle
    dsimp only
    cases hn : b.handles[n]? with
    | none => exact ⟨[], .rest, nofun⟩
    | some h =>
      obtain ⟨rest, p, p'⟩ := everyHandle_set hn
      refine ⟨_, (Handle.perform_moves horizon b.host h op).within p (p' _ _), ?_⟩
      rintro _ resolver t ⟨⟩ hr
      dsimp only at hr
      cases hreply : (h.perform horizon b.host (.setResolver resolver)).reply with
      | error f =>
        rw [hreply] at hr
        cases hr
      | ok reply =>
        rw [hreply] at hr
        cases hr
        rfl
  | drop n =>
    refine ⟨[], ?_, nofun⟩
    unfold perform onHandle
    dsimp only
    cases hn : b.handles[n]? with
    | none => exact .rest
    | some h =>
      obtain ⟨rest, p, p'⟩ := everyHandle_set hn
      exact (h.drop_moves b.host).within p (p' _ _)
  | run n x d way =>
    unfold perform onHandle
    dsimp only
    cases hn : b.handles[n]? with
    | none => exact ⟨[], .rest, nofun⟩
    | some h =>
      obtain ⟨rest, p, -⟩ := everyHandle_set hn
      obtain ⟨log, hran⟩ :=
        Handle.runCopy_moves (way.advance_spared horizon) b.host x d h
      exact ⟨log, hran.within p p, nofun⟩
  | openSession n root x stepChunk =>
    unfold perform onHandle
    dsimp only
    cases hn : b.handles[n]? with
    | none => exact ⟨[], .rest, nofun⟩
    | some h =>
      obtain ⟨rest, p, -⟩ := everyHandle_set hn
      obtain ⟨log, hopened⟩ := openSession_moves b h ⟨rest, p⟩ root x stepChunk
      exact ⟨log, hopened, nofun⟩
  | ask n d question =>
    refine ⟨[], ?_, nofun⟩
    unfold perform onSession
    dsimp only
    cases hn : b.sessions[n]? with
    | none => exact .rest
    | some s =>
      obtain ⟨rest, p, p'⟩ := everyHandle_setSession hn
      exact (Session.job_moves b.host horizon d s question).within p (p' _ _)
  | closeSession n =>
    refine ⟨[], ?_, nofun⟩
    unfold perform onSession
    dsimp only
    cases hn : b.sessions[n]? with
    | none => exact .rest
    | some s =>
      obtain ⟨rest, p, p'⟩ := everyHandle_setSession hn
      exact (Session.close_moves b.host s).within p (p' _ _)

/-- So does any number of operations. -/
theorem performAll_moves (b : Bench) (ops : List Op) :
    ∃ log, Moves b.host.registry b.everyHandle log
      (b.performAll backend horizon ops).host.registry
      (b.performAll backend horizon ops).everyHandle := by
  induction ops generalizing b with
  | nil => exact ⟨[], .rest⟩
  | cons op ops ih =>
    obtain ⟨log, hfirst, -⟩ := perform_moves backend horizon b op
    obtain ⟨log', hrest⟩ := ih (b.perform backend horizon op).2
    exact ⟨log ++ log', hfirst.trans hrest⟩

/-! ## Registry and handles in step -/

/-- The registry and the handles at a bench are in step. -/
structure InStep (b : Bench) : Prop where
  /-- A token has an entry as long as a live handle belongs to its family. -/
  contains_iff : ∀ t, b.host.registry.contains t = true ↔
    ∃ h ∈ b.everyHandle, h.machine.isSome = true ∧ h.family = some t
  /-- The machine of a live handle asks under the token of its family, or under zero. -/
  context_eq : ∀ h ∈ b.everyHandle, ∀ i, h.machine = some i → i.context = h.family.getD 0

theorem inStep_of_balanced {b : Bench} (hb : Balanced b.host.registry b.everyHandle) :
    b.InStep where
  contains_iff t := by
    rw [hb.counts.contains_iff, Handle.owners_ne_zero_iff]
    refine exists_congr fun h => and_congr_right fun hh => ?_
    refine ⟨fun hf => ⟨?_, hf⟩, And.right⟩
    -- a handle without its machine has no family either
    cases hm : h.machine with
    | none =>
      rw [(hb.sound h hh).family_of_gone hm] at hf
      cases hf
    | some i => rfl
  context_eq h hh := (hb.sound h hh).context_eq

/-- A copy starts in the family of its source. -/
theorem copy_family {b : Bench} {n k : Nat}
    (hr : (b.perform backend horizon (.copy n)).1 = .ok (.created k)) :
    ∃ h h', b.handles[n]? = some h ∧
      (b.perform backend horizon (.copy n)).2.handles[k]? = some h' ∧
      h'.machine.isSome = true ∧ h'.family = h.family := by
  unfold perform onHandle at hr ⊢
  dsimp only at hr ⊢
  cases hn : b.handles[n]? with
  | none => rw [hn] at hr; cases hr
  | some h =>
    rw [hn] at hr
    dsimp only at hr ⊢
    cases hc : h.copy b.host with
    | error f => rw [hc] at hr; cases hr
    | ok r =>
      obtain ⟨h', host'⟩ := r
      rw [hc] at hr
      cases hr
      refine ⟨h, h', rfl, by simp [add], ?_⟩
      obtain ⟨i, -, ⟨hf, rfl, -⟩ | ⟨t, hf, rfl, -⟩⟩ := Handle.copy_eq_ok hc
      · exact ⟨rfl, hf.symm⟩
      · exact ⟨rfl, hf.symm⟩

/-- A handle refuses a resolver only if it is frozen or destroyed, and then nothing happens. -/
theorem setResolver_refused {b : Bench} {n : Nat} {resolver : Resolver} {f : Failure}
    (hr : (b.perform backend horizon (.on n (.setResolver resolver))).1 = .error f) :
    (f = .error .frozen ∨ f = .error .destroyed) ∧
      (b.perform backend horizon (.on n (.setResolver resolver))).2 = b := by
  unfold perform onHandle at hr ⊢
  dsimp only at hr ⊢
  cases hn : b.handles[n]? with
  | none => rw [hn] at hr; cases hr
  | some h =>
    obtain ⟨hlt, rfl⟩ := List.getElem?_eq_some_iff.1 hn
    rw [hn] at hr
    unfold Handle.perform at hr ⊢
    dsimp only at hr ⊢
    cases hs : b.handles[n].setResolver b.host resolver with
    | ok r => rw [hs] at hr; cases hr
    | error e =>
      rw [hs] at hr
      cases hr
      refine ⟨?_, by simp⟩
      unfold Handle.setResolver Handle.unfrozen Handle.live at hs
      cases hm : b.handles[n].machine with
      | none =>
        rw [hm] at hs
        cases hs
        exact .inr rfl
      | some i =>
        rw [hm] at hs
        cases hfrozen : b.handles[n].isFrozen with
        | true =>
          rw [hfrozen] at hs
          cases hs
          exact .inl rfl
        | false =>
          rw [hfrozen] at hs
          cases hs

/-- At a bench that began without registrations the registry and the handles are in step, whatever
was done there, as long as the counter of tokens has room for another one. The tokens that were
given out are words, as a registry that counts with words would have given them out as well; they
are not zero, and they increase. The next one is greater than all of them. A copy starts in the
family of its source, and a handle that refuses a resolver leaves everything as it is. -/
theorem families_in_step {host : Host} (hnone : host.registry.entries = []) (ops : List Op)
    (hroom : (performAll backend horizon ⟨host, [], []⟩ ops).host.registry.HasRoom) :
    let b := performAll backend horizon ⟨host, [], []⟩ ops
    b.InStep ∧
    (∃ tokens : List UInt64,
      Moves host.registry [] (tokens.map UInt64.toNat) b.host.registry b.everyHandle ∧
      host.registry.words.Goes tokens b.host.registry.words ∧
      tokens.Pairwise (· < ·) ∧ 0 ∉ tokens ∧
      ∀ n resolver t,
        (b.perform backend horizon (.on n (.setResolver resolver))).1 =
            .ok (.handle (.token (some t))) →
          ∃ token : UInt64, token.toNat = t ∧ (∀ u ∈ tokens, u < token) ∧
            Moves host.registry [] ((tokens ++ [token]).map UInt64.toNat)
              (b.perform backend horizon (.on n (.setResolver resolver))).2.host.registry
              (b.perform backend horizon (.on n (.setResolver resolver))).2.everyHandle) ∧
    (∀ n k, (b.perform backend horizon (.copy n)).1 = .ok (.created k) →
      ∃ h h', b.handles[n]? = some h ∧
        (b.perform backend horizon (.copy n)).2.handles[k]? = some h' ∧
        h'.machine.isSome = true ∧ h'.family = h.family) ∧
    (∀ n resolver f,
      (b.perform backend horizon (.on n (.setResolver resolver))).1 = .error f →
        (f = .error .frozen ∨ f = .error .destroyed) ∧
          (b.perform backend horizon (.on n (.setResolver resolver))).2 = b) := by
  intro b
  have hstart : Balanced host.registry [] := by
    refine ⟨fun t => ?_, by simp⟩
    unfold Registry.entry?
    rw [hnone]
    rfl
  obtain ⟨log, hmoves⟩ := performAll_moves backend horizon ⟨host, [], []⟩ ops
  obtain ⟨tokens, rfl, hgoes⟩ := hmoves.words hstart (Nat.lt_of_succ_lt hroom)
  have hincreasing : tokens.Pairwise (· < ·) :=
    (List.pairwise_map.1 hmoves.log_increasing).imp UInt64.lt_iff_toNat_lt.2
  refine ⟨inStep_of_balanced (hmoves.balanced hstart),
    ⟨tokens, hmoves, hgoes, hincreasing, fun h0 => ?_, ?_⟩,
    fun n k => copy_family backend horizon, fun n resolver f => setResolver_refused backend horizon⟩
  · exact absurd (hmoves.lt_of_mem_log (List.mem_map_of_mem h0)) (Nat.not_lt_zero _)
  · intro n resolver t hr
    obtain ⟨log, hmove, hlog⟩ := perform_moves backend horizon b (.on n (.setResolver resolver))
    obtain rfl := hlog n resolver t rfl hr
    have hall := hmoves.trans hmove
    -- the next token is the next number, which is a word as there is room for it
    have hnext : t = b.host.registry.lastToken + 1 := List.singleton_inj.1 hmove.log_eq.2
    have hword : (UInt64.ofNat t).toNat = t := by
      rw [hnext]
      exact UInt64.toNat_ofNat_of_lt' hroom
    refine ⟨.ofNat t, hword, fun u hu => ?_, ?_⟩
    · have hlast := hall.log_increasing
      rw [List.pairwise_append] at hlast
      refine UInt64.lt_iff_toNat_lt.2 ?_
      rw [hword]
      exact hlast.2.2 _ (List.mem_map_of_mem hu) t (List.mem_singleton_self t)
    · rw [List.map_append, List.map_singleton, hword]
      exact hall

/-- The entry of a family outlives the handle that started it, as long as there is a copy. -/
theorem families_in_step_on_reader :
    let b := performAll referenceBackend 9 ⟨readerHost, [], []⟩
      [.load (Bytes.ofText "/image"), .on 0 (.setResolver (.always [])), .copy 0, .on 0 .destroy]
    readerHost.registry.entries = [] ∧ b.host.registry.HasRoom ∧ b.InStep ∧
      b.host.registry.contains 1 = true := by
  have himage : Program.load readerHost.files (Bytes.ofText "/image") = .ok reader :=
    Program.load_written rfl
  have hload : (perform referenceBackend 9 ⟨readerHost, [], []⟩
      (.load (Bytes.ofText "/image"))).2 =
        ⟨readerHost, [.plain (.ofProgram reader) false none], []⟩ := by
    unfold perform
    dsimp only
    rw [Backend.load_reference referenceBackend_isReference, himage]
    rfl
  have hdone : performAll referenceBackend 9 ⟨readerHost, [], []⟩
      [.load (Bytes.ofText "/image"), .on 0 (.setResolver (.always [])), .copy 0, .on 0 .destroy] =
        performAll referenceBackend 9 ⟨readerHost, [.plain (.ofProgram reader) false none], []⟩
          [.on 0 (.setResolver (.always [])), .copy 0, .on 0 .destroy] := by
    rw [← hload]
    rfl
  have hroom : Registry.HasRoom (performAll referenceBackend 9 ⟨readerHost, [], []⟩
      [.load (Bytes.ofText "/image"), .on 0 (.setResolver (.always [])), .copy 0,
        .on 0 .destroy]).host.registry := by
    rw [hdone]
    show (1 : Nat) + 1 < UInt64.size
    decide
  refine ⟨rfl, hroom, (families_in_step referenceBackend 9 rfl _ hroom).1, ?_⟩
  rw [hdone]
  rfl

end Rerun.Bench
