import Rerun.Proofs.Session.Lock

/-!
# Closing a session

With all workers and all callers gone nothing is left of a session that was closed: its machines are
destroyed, the replaced cursors too, and its token is registered no more (`closed_leaves_nothing`).
With one of the callers gone another one may still be about to destroy the cursor
(`close_ends_before_cursor_on_reader`). Questions that come too late are refused.
-/

namespace Rerun.Session

open Handle

variable {host : Host} {s : Session}

namespace Shared

variable {horizon : Nat} {sh sh' : Shared} {p : Party} {stage : Release}

/-! ## Machines and tokens -/

/-- The host accounts for the handles of the session among others, and replaced cursors are
destroyed. -/
structure Accounted (others : List Handle) (sh : Shared) : Prop where
  balanced : Balanced sh.host.registry (sh.session.handles ++ others)
  stale : ∀ h ∈ sh.stale, h.machine = none

theorem Accounted.proceed {others : List Handle} (h : Accounted others sh)
    (next : Option Release) (p : Party) : Accounted others (sh.proceed next p) := by
  cases p <;> exact ⟨h.balanced, h.stale⟩

theorem Accounted.move {others : List Handle} (m : Move horizon sh sh') (h : Accounted others sh) :
    Accounted others sh' := by
  cases m with
  | @answer w ask d here =>
    have hmoved := answer_moved sh.host horizon d sh.session ask
    refine ⟨((answer_moves sh.host horizon d sh.session ask).frame others).balanced h.balanced, ?_⟩
    rintro handle hin
    obtain hin | hin := List.mem_append.1 hin
    · exact h.stale handle hin
    · exact hmoved.left_gone handle hin
  | dropPrepared here =>
    exact ⟨((dropPrepared_moves sh.host sh.session).frame others).balanced h.balanced, h.stale⟩
  | @seize p here free =>
    have hsame := h.proceed (some .locked) p
    exact ⟨hsame.balanced, hsame.stale⟩
  | @pass p q here held => exact h.proceed none p
  | @dropCursor p here =>
    exact ⟨((dropCursor_moves sh.host sh.session).frame others).balanced h.balanced,
      (h.proceed (some .dropped) p).stale⟩
  | @letGo p here =>
    have hsame := h.proceed none p
    exact ⟨hsame.balanced, hsame.stale⟩
  | _ => exact ⟨h.balanced, h.stale⟩

/-! ## Questions that come too late -/

/-- The session is cancelled, and the workers from a number on are refused. -/
structure Refuses (n : Nat) (sh : Shared) : Prop where
  isCancelled : sh.session.isCancelled = true
  workers : ∀ w worker, n ≤ w → sh.workers[w]? = some worker → worker.isRefused

theorem Refuses.setWorker {n : Nat} (h : Refuses n sh) {w : Nat} {old : Worker}
    (here : sh.workers[w]? = some old) (new : Worker) (hs : old.isRefused → new.isRefused) :
    Refuses n (sh.setWorker w new) := by
  refine ⟨h.isCancelled, fun v worker hv hworker => ?_⟩
  replace hworker : (sh.workers.set w new)[v]? = some worker := hworker
  by_cases hne : w = v
  · subst hne
    have hlt := (List.getElem?_eq_some_iff.1 here).1
    rw [List.getElem?_set_self hlt] at hworker
    cases hworker
    exact hs (h.workers w old hv here)
  · rw [List.getElem?_set_ne hne] at hworker
    exact h.workers v worker hv hworker

theorem Refuses.proceed {n : Nat} (h : Refuses n sh) (here : sh.release? p = some stage)
    (next : Option Release) : Refuses n (sh.proceed next p) := by
  obtain ⟨w, r, rfl, hw, heq⟩ | ⟨c, rfl, -, heq⟩ := proceed_cases here next
  · rw [heq]
    refine h.setWorker hw _ fun hr => ?_
    cases next <;> exact hr
  · rw [heq]
    exact ⟨h.isCancelled, h.workers⟩

theorem Refuses.move {n : Nat} (m : Move horizon sh sh') (h : Refuses n sh) : Refuses n sh' := by
  cases m with
  | start ask =>
    refine ⟨h.isCancelled, fun v worker hv hworker => ?_⟩
    replace hworker : (sh.workers ++ [.started ask])[v]? = some worker := hworker
    rw [List.getElem?_append] at hworker
    split at hworker
    · exact h.workers v worker hv hworker
    · obtain rfl := List.mem_singleton.1 (List.mem_of_getElem? hworker)
      trivial
  | @lock w ask here free =>
    have hmoved := h.setWorker here (.holding ask) fun _ => trivial
    exact ⟨hmoved.isCancelled, hmoved.workers⟩
  | refuse here cancelled => exact h.setWorker here (.answered _) fun _ => rfl
  | accept here isOpen =>
    rw [h.isCancelled] at isOpen
    cases isOpen
  | @answer w ask d here =>
    have hmoved := h.setWorker here
      (.answered (sh.session.answer sh.host horizon d ask).result) False.elim
    exact ⟨(answer_moved sh.host horizon d sh.session ask).isCancelled.trans h.isCancelled,
      hmoved.workers⟩
  | @unlock w r here =>
    have hmoved := h.setWorker here (if panicked r then .gone r else .leaving r)
      fun hr => by split <;> exact hr
    exact ⟨hmoved.isCancelled, hmoved.workers⟩
  | leave here => exact h.setWorker here _ fun hr => by split <;> exact hr
  | cancel here => exact ⟨rfl, h.workers⟩
  | seize here free =>
    have hmoved := h.proceed here (some .locked)
    exact ⟨hmoved.isCancelled, hmoved.workers⟩
  | pass here held => exact h.proceed here none
  | dropCursor here => exact ⟨h.isCancelled, (h.proceed here (some .dropped)).workers⟩
  | letGo here =>
    have hmoved := h.proceed here none
    exact ⟨hmoved.isCancelled, hmoved.workers⟩
  | _ => exact ⟨h.isCancelled, h.workers⟩

end Shared

/-! ## From the beginning to the end -/

theorem supply_family {host' : Host} {x : Input} {h h' : Handle}
    (hs : h.supply host x = .ok (h', host')) :
    h'.family = some (host.registry.lastToken + 1) := by
  obtain ⟨h₁, -, hs⟩ := Result.of_bind hs
  obtain ⟨h₂, -, hs⟩ := Result.of_bind hs
  obtain ⟨h₃, -, hs⟩ := Result.of_bind hs
  obtain ⟨⟨token, h₄, host₄⟩, hr, hs⟩ := Result.of_bind hs
  cases hs
  obtain ⟨i, -, rfl, rfl, -⟩ := setResolver_eq_ok (Instance.lift_eq_ok hr)
  rfl

theorem copy_family {host' : Host} {h h' : Handle} (hc : h.copy host = .ok (h', host')) :
    h'.family = h.family ∧ host'.registry.lastToken = host.registry.lastToken := by
  obtain ⟨i, -, ⟨hf, rfl, rfl⟩ | ⟨t, hf, rfl, rfl⟩⟩ := copy_eq_ok hc
  · exact ⟨hf.symm, rfl⟩
  · exact ⟨hf.symm, Registry.retain_lastToken ..⟩

/-- A session that could be opened over a machine, with the copy that it keeps. -/
theorem opened_eq_ok {before : Host} {root : Digest} {source : Handle} {x : Input}
    {stepChunk : UInt64} (ho : opened before root source x stepChunk = (.ok s, host)) :
    ∃ h middle, prepare before source x = (.ok h, middle) ∧
      ofPrepared middle root h stepChunk = (.ok s, host) := by
  unfold opened at ho
  cases hp : prepare before source x with
  | mk r middle =>
    rw [hp] at ho
    cases r with
    | error f => cases ho
    | ok h => exact ⟨h, middle, rfl, ho⟩

theorem opened_moves {before : Host} {root : Digest} {source : Handle} {x : Input}
    {stepChunk : UInt64} (ho : opened before root source x stepChunk = (.ok s, host)) :
    ∃ log, Moves before.registry [source] log host.registry (s.handles ++ [source]) := by
  obtain ⟨h, middle, hp, ho⟩ := opened_eq_ok ho
  obtain ⟨log, hprepared⟩ := prepare_moves before source x
  have hkept := ofPrepared_moves middle root h stepChunk
  rw [hp] at hprepared
  rw [ho] at hkept
  exact ⟨_, hprepared.trans (hkept.frame [source])⟩

theorem prepare_family {before : Host} {source : Handle} {x : Input} {h : Handle}
    (hp : prepare before source x = (.ok h, host)) :
    h.family = some (before.registry.lastToken + 1) := by
  unfold prepare at hp
  cases hc : source.copy before with
  | error f => rw [hc] at hp; cases hp
  | ok r =>
    obtain ⟨fresh, copied⟩ := r
    rw [hc] at hp
    dsimp only at hp
    cases hs : fresh.supply copied x with
    | error f => rw [hs] at hp; cases hp
    | ok r =>
      obtain ⟨h', host'⟩ := r
      rw [hs] at hp
      cases hp
      rw [supply_family hs, (copy_family hc).2]

/-- Both machines of a new session belong to the next family. -/
theorem opened_family {before : Host} {root : Digest} {source : Handle} {x : Input}
    {stepChunk : UInt64} (ho : opened before root source x stepChunk = (.ok s, host)) :
    s.prepared.family = some (before.registry.lastToken + 1) ∧
      s.cursor.family = some (before.registry.lastToken + 1) := by
  obtain ⟨h, middle, hp, ho⟩ := opened_eq_ok ho
  have hfamily := prepare_family hp
  unfold ofPrepared at ho
  cases hc : h.copy middle with
  | error f => rw [hc] at ho; cases ho
  | ok r =>
    obtain ⟨cursor, host'⟩ := r
    rw [hc] at ho
    dsimp only at ho
    cases hf : h.freeze with
    | error e => rw [hf] at ho; cases ho
    | ok prepared =>
      rw [hf] at ho
      cases ho
      exact ⟨(freeze_keeps hf).family.trans hfamily, (copy_family hc).1.trans hfamily⟩

/-- A token that none of the others has is not registered any more when both machines of a session
are destroyed. -/
theorem unregistered {others : List Handle} {token : Nat}
    (b : Balanced host.registry (s.handles ++ others)) (hp : s.prepared.machine = none)
    (hc : s.cursor.machine = none) (ho : owners others token = 0) :
    host.registry.contains token = false := by
  have hprepared := (b.sound s.prepared (by simp [handles])).family_of_gone hp
  have hcursor := (b.sound s.cursor (by simp [handles])).family_of_gone hc
  have hnone : owners (s.handles ++ others) token = 0 := by
    show owners (s.prepared :: s.cursor :: others) token = 0
    rw [owners_cons_none hprepared, owners_cons_none hcursor, ho]
  rw [Bool.eq_false_iff, Ne, b.counts.contains_iff, hnone]
  simp

/-- A session after things happened to it, which nobody was at before. -/
def afterEvents (horizon : Nat) (s : Session) (host : Host) (events : List Shared.Event) :
    Shared :=
  Shared.run horizon { session := s, host } events

section

variable {before : Host} {source : Handle} {others : List Handle}
  (hb : Balanced before.registry (source :: others)) {root : Digest} {x : Input}
  {stepChunk : UInt64} (ho : opened before root source x stepChunk = (.ok s, host))
include hb ho

/-- The host of a new session accounts for its handles and the others. -/
theorem opened_balanced : Balanced host.registry (s.handles ++ source :: others) := by
  obtain ⟨log, hmoves⟩ := opened_moves ho
  have hbalanced := (hmoves.frame others).balanced hb
  rwa [List.append_assoc] at hbalanced

/-- Nobody but the session has its token, which is registered. -/
theorem opened_token :
    ∃ token, s.prepared.family = some token ∧ s.cursor.family = some token ∧
      owners (source :: others) token = 0 ∧ host.registry.contains token = true := by
  obtain ⟨hprepared, hcursor⟩ := opened_family ho
  refine ⟨_, hprepared, hcursor, hb.counts.fresh, ?_⟩
  rw [(opened_balanced hb ho).counts.contains_iff]
  exact owners_ne_zero_iff.2 ⟨s.prepared, by simp [handles], hprepared⟩

theorem accounted_afterEvents (horizon : Nat) (events : List Shared.Event) :
    (afterEvents horizon s host events).Accounted (source :: others) :=
  Shared.run_induction Shared.Accounted.move ⟨opened_balanced hb ho, by simp⟩ events

end

theorem tended_afterEvents (horizon : Nat) (s : Session) (host : Host)
    (events : List Shared.Event) : (afterEvents horizon s host events).Tended := by
  refine Shared.run_induction Shared.Tended.move
    ⟨fun p => ?_, by simp, by simp, fun p hp => ?_, by simp⟩ events
  · cases p <;> simp [Shared.hasLock]
  · cases p <;> cases hp

/-- For every session over a machine of a host that accounts for its handles, any number of workers
and callers, and whatever they do in whatever order, as long as no question ends in a panic: when a
caller is done with closing the session and no worker is in its job, the prepared machine is
destroyed, and so is every cursor that was replaced. The cursor is destroyed as well, or another
caller has the lock and destroys it next. When all callers are done the cursor is destroyed, and the
token of the session, which it had for itself, is registered no more. Once the session is cancelled,
every job that starts ends with the refusal. -/
theorem closed_leaves_nothing {before : Host} {source : Handle} {others : List Handle}
    (hb : Balanced before.registry (source :: others)) {root : Digest} {x : Input}
    {stepChunk : UInt64} (ho : opened before root source x stepChunk = (.ok s, host))
    (horizon : Nat) (events : List Shared.Event) :
    let sh := afterEvents horizon s host events
    ((∀ worker ∈ sh.workers, ∀ r, worker.result? = some r → panicked r = false) →
      .gone ∈ sh.closers → (∀ worker ∈ sh.workers, worker.isGone = true) →
      sh.session.prepared.machine = none ∧ (∀ h ∈ sh.stale, h.machine = none) ∧
        (sh.session.cursor.machine = none ∨
          ∃ c, sh.holder = some (.closer c) ∧
            (sh.step horizon (.dropCursor (.closer c))).session.cursor.machine = none) ∧
        ((∀ c ∈ sh.closers, c = .gone) →
          sh.session.cursor.machine = none ∧
            ∃ token, s.prepared.family = some token ∧ s.cursor.family = some token ∧
              owners (source :: others) token = 0 ∧ host.registry.contains token = true ∧
              sh.host.registry.contains token = false)) ∧
      (sh.session.isCancelled = true → ∀ more w worker r, sh.workers.length ≤ w →
        (sh.run horizon more).workers[w]? = some worker → worker.result? = some r →
        r = fail .cancelled) := by
  intro sh
  have htended : sh.Tended := tended_afterEvents horizon s host events
  have haccounted : sh.Accounted (source :: others) := accounted_afterEvents hb ho horizon events
  refine ⟨fun hpanic hgone hidle => ?_, fun hcancelled more w worker r hw hworker hr => ?_⟩
  · have hprepared := htended.prepared _ hgone rfl
    have hcursor : sh.session.cursor.machine = none ∨ .releasing .locked ∈ sh.closers := by
      obtain hcursor | ⟨worker, hworker, hminds⟩ | hlocked := htended.cursor hgone
      · exact .inl hcursor
      · -- the one that minds it is gone, so its question ended in a panic
        have hgone := hidle worker hworker
        cases worker with
        | gone r => exact absurd hminds (Bool.eq_false_iff.1 (hpanic _ hworker r rfl))
        | _ => cases hgone
      · exact .inr hlocked
    refine ⟨hprepared, haccounted.stale, hcursor.imp_right fun hlocked => ?_, fun hdone => ?_⟩
    · obtain ⟨c, hc⟩ := List.mem_iff_getElem?.1 hlocked
      have hhere : sh.release? (.closer c) = some .locked :=
        congrArg (·.bind Closer.release?) hc
      refine ⟨c, (htended.locked _).2 (Shared.hasLock_of_release? hhere), ?_⟩
      unfold Shared.step
      dsimp only
      rw [hhere]
      exact dropCursor_cursor sh.host sh.session
    · have hdropped := hcursor.resolve_right fun hlocked => nomatch hdone _ hlocked
      obtain ⟨token, hfamily, hfamily', hown, hregistered⟩ := opened_token hb ho
      exact ⟨hdropped, token, hfamily, hfamily', hown, hregistered,
        unregistered haccounted.balanced hprepared hdropped hown⟩
  · have hrefuses : sh.Refuses sh.workers.length := by
      refine ⟨hcancelled, fun v worker hv hworker => ?_⟩
      rw [List.getElem?_eq_none hv] at hworker
      cases hworker
    have hrefused := (Shared.run_induction Shared.Refuses.move hrefuses more).workers w worker hw
      hworker
    cases worker <;> cases hr <;> exact hrefused

theorem afterEvents_append (horizon : Nat) (s : Session) (host : Host)
    (events more : List Shared.Event) :
    afterEvents horizon s host (events ++ more) =
      (afterEvents horizon s host events).run horizon more := List.foldl_append

/-- What happens to a session over the reader: a question is answered, and another one goes back
while a caller closes the session, who finds the lock taken. -/
def closing : List Shared.Event :=
  [.start (.stepAt 1), .lock 0, .check 0, .answer 0 .never, .unlock 0, .leave 0,
    .start (.stepAt 0), .lock 1, .check 1, .close, .cancel 0, .answer 1 .never, .dropPrepared 0,
    .tryLock (.closer 0)]

/-- The other question is answered, and a third one comes too late. -/
def afterwards : List Shared.Event :=
  [.start .last, .unlock 1, .leave 1, .lock 2, .tryLock (.worker 1), .check 2, .unlock 2, .leave 2,
    .tryLock (.worker 2), .dropCursor (.worker 2), .letGo (.worker 2)]

theorem closed_leaves_nothing_on_reader :
    ∃ s host, opened readerHost reader.root readerPair.zeroStep readerInput 0 = (.ok s, host) ∧
      host.registry.contains 1 = true ∧
      let sh := afterEvents 9 s host (closing ++ afterwards)
      sh.stale.length = 1 ∧ sh.session.prepared.machine = none ∧
        sh.session.cursor.machine = none ∧ sh.host.registry.contains 1 = false ∧
        sh.workers[2]? = some (.gone (fail .cancelled)) := by
  have hstart : Balanced readerHost.registry [] := ⟨fun _ => rfl, by simp⟩
  have hb : Balanced readerHost.registry [readerPair.zeroStep] :=
    hstart.single rfl ⟨fun _ => rfl, by rintro i ⟨⟩; rfl⟩
  obtain ⟨s, host, hopened⟩ : ∃ s host,
      opened readerHost reader.root readerPair.zeroStep readerInput 0 = (.ok s, host) :=
    ⟨_, _, rfl⟩
  obtain ⟨hclosed, -⟩ := closed_leaves_nothing hb hopened 9 (closing ++ afterwards)
  obtain ⟨hprepared, -, -, hdone⟩ :=
    hclosed (by cases hopened; decide) (by cases hopened; decide) (by cases hopened; decide)
  obtain ⟨hcursor, token, htoken, -, -, hregistered, hgone⟩ := hdone (by cases hopened; decide)
  obtain rfl : token = 1 := by
    cases hopened
    cases htoken
    rfl
  obtain ⟨worker, hworker, hout⟩ : ∃ worker,
      (afterEvents 9 s host (closing ++ afterwards)).workers[2]? = some worker ∧
        worker.isGone = true :=
    (Option.any_eq_true Worker.isGone _).1 (by cases hopened; decide)
  refine ⟨s, host, hopened, hregistered, by cases hopened; decide, hprepared, hcursor, hgone, ?_⟩
  obtain ⟨-, hlate⟩ := closed_leaves_nothing hb hopened 9 closing
  replace hlate := fun hc => hlate hc afterwards 2
  rw [← afterEvents_append] at hlate
  cases worker with
  | gone r =>
    rw [hworker,
      hlate (by cases hopened; decide) (.gone r) r (by cases hopened; decide) hworker rfl]
  | _ => cases hout

/-- Two callers close a session that nobody asks anything. The second one comes to the cursor
between the first one's taking the lock and its destroying the cursor. -/
def overtaking : List Shared.Event :=
  [.close, .cancel 0, .dropPrepared 0, .tryLock (.closer 0), .close, .cancel 1, .dropPrepared 1,
    .tryLock (.closer 1)]

/-- The second of two callers can be done with closing a session, with no worker in its job, while
the cursor is not destroyed, and the token of the session still registered. -/
theorem close_ends_before_cursor_on_reader :
    ∃ s host, opened readerHost reader.root readerPair.zeroStep readerInput 0 = (.ok s, host) ∧
      let sh := afterEvents 9 s host overtaking
      sh.workers = [] ∧ sh.closers = [.releasing .locked, .gone] ∧
        sh.session.cursor.machine ≠ none ∧ sh.host.registry.contains 1 = true := by
  obtain ⟨s, host, hopened⟩ : ∃ s host,
      opened readerHost reader.root readerPair.zeroStep readerInput 0 = (.ok s, host) :=
    ⟨_, _, rfl⟩
  refine ⟨s, host, hopened, ?_⟩
  cases hopened
  exact ⟨rfl, by decide, nofun, by decide⟩

end Rerun.Session
