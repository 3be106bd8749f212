import Rerun.Proofs.Session.Move

/-!
# The lock of a session, and its cursor

Closing a session never waits for the lock, so it can find the cursor in somebody's hands. If it is
a worker's, the worker destroys the cursor in the end, unless yet another party has it by then. If
it is another caller's, that caller is about to destroy it, but whoever passed on is done before.
So the cursor is never between two of them: once a caller is done with closing, the cursor is
destroyed, a worker minds it, or a caller has the lock and destroys it next (`Tended.move`).
-/

namespace Rerun.Session.Shared

variable {horizon : Nat} {sh sh' : Shared} {p : Party} {stage : Release}

/-! ## The lock -/

/-- Whoever is told to have the lock is in a place with it, and nobody else is. -/
def Locked (sh : Shared) : Prop := ∀ p, sh.holder = some p ↔ sh.hasLock p = true

theorem Locked.keep (h : Locked sh) (hholder : sh'.holder = sh.holder)
    (hsame : ∀ q, sh'.hasLock q = sh.hasLock q) : Locked sh' := by
  intro q
  rw [hholder, hsame]
  exact h q

theorem Locked.take (h : Locked sh) (free : sh.holder = none) (hholder : sh'.holder = some p)
    (hplace : ∀ q, sh'.hasLock q = if q = p then true else sh.hasLock q) : Locked sh' := by
  intro q
  have hq := h q
  rw [free] at hq
  rw [hholder, hplace]
  by_cases hqp : q = p
  · simp [hqp]
  · simpa [hqp, Ne.symm hqp] using hq

theorem Locked.give (h : Locked sh) (held : sh.holder = some p) (hholder : sh'.holder = none)
    (hplace : ∀ q, sh'.hasLock q = if q = p then false else sh.hasLock q) : Locked sh' := by
  intro q
  have hq := h q
  rw [held] at hq
  rw [hholder, hplace]
  by_cases hqp : q = p
  · simp [hqp]
  · simpa [hqp, Ne.symm hqp] using hq

/-- A worker moves and keeps the lock, or stays without. -/
theorem Locked.setWorker (h : Locked sh) {w : Nat} {old new : Worker}
    (here : sh.workers[w]? = some old) (hl : new.hasLock = old.hasLock) :
    Locked (sh.setWorker w new) := by
  refine h.keep rfl fun q => ?_
  rw [hasLock_setWorker here]
  split
  · rename_i hq
    rw [hq, hl]
    exact (congrArg (Option.any Worker.hasLock) here).symm
  · rfl

/-- A caller moves and stays without the lock. -/
theorem Locked.setCloser (h : Locked sh) {c : Nat} {old new : Closer}
    (here : sh.closers[c]? = some old) (hl : new.hasLock = old.hasLock) :
    Locked (sh.setCloser c new) := by
  refine h.keep rfl fun q => ?_
  rw [hasLock_setCloser here]
  split
  · rename_i hq
    rw [hq, hl]
    exact (congrArg (Option.any Closer.hasLock) here).symm
  · rfl

theorem Locked.move (m : Move horizon sh sh') (h : Locked sh) : Locked sh' := by
  cases m with
  | rest => exact h
  | start ask =>
    refine h.keep rfl fun q => ?_
    cases q with
    | worker w => exact seen_append (Option.any Worker.hasLock) rfl sh.workers w
    | closer c => rfl
  | lock here free => exact h.take free rfl (hasLock_setWorker here _)
  | refuse here cancelled => exact h.setWorker here rfl
  | accept here isOpen => exact h.setWorker here rfl
  | answer d here => exact h.setWorker here rfl
  | @unlock w r here =>
    have hplace : sh.hasLock (.worker w) = true := congrArg (Option.any Worker.hasLock) here
    refine h.give ((h _).2 hplace) rfl fun q => ?_
    refine (hasLock_setWorker here _ q).trans ?_
    cases panicked r <;> rfl
  | leave here =>
    refine h.setWorker here ?_
    split <;> rfl
  | close =>
    refine h.keep rfl fun q => ?_
    cases q with
    | worker w => rfl
    | closer c => exact seen_append (Option.any Closer.hasLock) rfl sh.closers c
  | cancel here => exact h.setCloser here rfl
  | dropPrepared here => exact h.setCloser here rfl
  | seize here free => exact h.take free rfl (hasLock_proceed here _)
  | @pass p q here held =>
    refine h.keep (sh.proceed_spares none p).1 fun q => ?_
    rw [hasLock_proceed here]
    split
    · rename_i hq
      rw [hq, hasLock_of_release? here]
      rfl
    · rfl
  | @dropCursor p here =>
    refine h.keep (sh.proceed_spares (some .dropped) p).1 fun q => ?_
    refine (hasLock_proceed here (some .dropped) q).trans ?_
    split
    · rename_i hq
      rw [hq, hasLock_of_release? here]
      rfl
    · rfl
  | letGo here =>
    exact h.give ((h _).2 (hasLock_of_release? here)) rfl (hasLock_proceed here _)

/-! ## Who minds the cursor -/

/-- Some worker minds the cursor, or some caller has the lock and is about to destroy it. -/
def Minded (sh : Shared) : Prop :=
  (∃ worker ∈ sh.workers, worker.minds = true) ∨ .releasing .locked ∈ sh.closers

/-- How far closing the session has come for sure, by how far some caller has come. -/
structure Tended (sh : Shared) : Prop where
  locked : Locked sh
  isCancelled : ∀ c ∈ sh.closers, c ≠ .begun → sh.session.isCancelled = true
  prepared : ∀ c ∈ sh.closers, c.isPastPrepared = true → sh.session.prepared.machine = none
  dropped : ∀ p, sh.release? p = some .dropped → sh.session.cursor.machine = none
  cursor : .gone ∈ sh.closers → sh.session.cursor.machine = none ∨ Minded sh

/-- Whoever has the lock minds the cursor, or has destroyed it. -/
theorem Locked.minded (h : Locked sh) (held : sh.holder = some p)
    (hdropped : ∀ p, sh.release? p = some .dropped → sh.session.cursor.machine = none) :
    sh.session.cursor.machine = none ∨ Minded sh := by
  have hplace := (h p).1 held
  cases p with
  | worker w =>
    obtain ⟨worker, hworker, hlock⟩ := (Option.any_eq_true _ _).1 hplace
    exact .inr (.inl ⟨worker, List.mem_of_getElem? hworker, Worker.minds_of_hasLock hlock⟩)
  | closer c =>
    obtain ⟨closer, hcloser, hlock⟩ := (Option.any_eq_true _ _).1 hplace
    cases closer with
    | releasing stage =>
      cases stage with
      | trying => cases hlock
      | locked => exact .inr (.inr (List.mem_of_getElem? hcloser))
      | dropped => exact .inl (hdropped (.closer c) (congrArg (·.bind Closer.release?) hcloser))
    | _ => cases hlock

/-- Whoever has destroyed the cursor still was the only one with the lock. -/
theorem Locked.release?_eq (h : Locked sh) (hp : sh.release? p = some .dropped) {q : Party}
    (hq : sh.hasLock q = true) : q = p := by
  have hholder := (h p).2 (hasLock_of_release? hp)
  exact Option.some.inj (((h q).2 hq).symm.trans hholder)

theorem dropped_of_setWorker {w : Nat} {old : Worker} (here : sh.workers[w]? = some old)
    {new : Worker} (hnew : new.release? ≠ some .dropped) (q : Party)
    (hq : (sh.setWorker w new).release? q = some .dropped) : sh.release? q = some .dropped := by
  rw [release?_setWorker here] at hq
  split at hq
  · exact absurd hq hnew
  · exact hq

theorem dropped_of_setCloser {c : Nat} {old : Closer} (here : sh.closers[c]? = some old)
    {new : Closer} (hnew : new.release? ≠ some .dropped) (q : Party)
    (hq : (sh.setCloser c new).release? q = some .dropped) : sh.release? q = some .dropped := by
  rw [release?_setCloser here] at hq
  split at hq
  · exact absurd hq hnew
  · exact hq

theorem dropped_of_proceed (here : sh.release? p = some stage) {next : Option Release}
    (hnext : next ≠ some .dropped) (q : Party)
    (hq : (sh.proceed next p).release? q = some .dropped) : sh.release? q = some .dropped := by
  rw [release?_proceed here] at hq
  split at hq
  · exact absurd hq hnext
  · exact hq

/-- A worker moves, and minds the cursor now. -/
theorem Tended.setWorker (h : Tended sh) {w : Nat} {old new : Worker}
    (here : sh.workers[w]? = some old) (hl : new.hasLock = old.hasLock)
    (hnew : new.release? ≠ some .dropped) (hm : new.minds = true) :
    Tended (sh.setWorker w new) where
  locked := h.locked.setWorker here hl
  isCancelled := h.isCancelled
  prepared := h.prepared
  dropped q hq := h.dropped q (dropped_of_setWorker here hnew q hq)
  cursor _ := .inr (.inl ⟨new, mem_set here new, hm⟩)

/-- A caller moves who does not have the lock. -/
theorem Minded.setCloser (h : Minded sh) {c : Nat} {old : Closer} (here : sh.closers[c]? = some old)
    (hold : old.hasLock = false) (new : Closer) : Minded (sh.setCloser c new) := by
  refine h.imp_right fun hmem => mem_set_of_ne here hmem ?_ new
  rintro rfl
  cases hold

/-- Whoever is releasing the cursor has destroyed the prepared machine before, if it is a caller. -/
theorem mem_closers_proceed (here : sh.release? p = some stage) {next : Option Release}
    {c : Closer} (hc : c ∈ (sh.proceed next p).closers) :
    c ∈ sh.closers ∨ .releasing stage ∈ sh.closers := by
  obtain ⟨w, r, rfl, -, heq⟩ | ⟨d, rfl, hd, -⟩ := proceed_cases here next
  · rw [heq] at hc
    exact .inl hc
  · exact .inr (List.mem_of_getElem? hd)

theorem Tended.isCancelled_proceed (h : Tended sh) (here : sh.release? p = some stage)
    {next : Option Release} {c : Closer} (hc : c ∈ (sh.proceed next p).closers)
    (hbegun : c ≠ .begun) : sh.session.isCancelled = true := by
  obtain hc | hc := mem_closers_proceed here hc
  · exact h.isCancelled c hc hbegun
  · exact h.isCancelled _ hc nofun

theorem Tended.prepared_proceed (h : Tended sh) (here : sh.release? p = some stage)
    {next : Option Release} {c : Closer} (hc : c ∈ (sh.proceed next p).closers)
    (hpast : c.isPastPrepared = true) : sh.session.prepared.machine = none := by
  obtain hc | hc := mem_closers_proceed here hc
  · exact h.prepared c hc hpast
  · exact h.prepared _ hc rfl

/-- Whoever takes the lock to destroy the cursor minds it. -/
theorem minded_of_seize (here : sh.release? p = some stage) :
    Minded (sh.proceed (some .locked) p) := by
  obtain ⟨w, r, rfl, hw, heq⟩ | ⟨c, rfl, hc, heq⟩ := proceed_cases here (some .locked)
  · rw [heq]
    exact .inl ⟨_, mem_set hw _, rfl⟩
  · rw [heq]
    exact .inr (mem_set hc _)

theorem Tended.move (m : Move horizon sh sh') (h : Tended sh) : Tended sh' := by
  have hlocked := h.locked.move m
  cases m with
  | rest => exact h
  | start ask =>
    refine ⟨hlocked, h.isCancelled, h.prepared, fun q hq => h.dropped q ?_, fun hgone => ?_⟩
    · cases q with
      | worker w => exact (seen_append (·.bind Worker.release?) rfl sh.workers w).symm.trans hq
      | closer c => exact hq
    · refine (h.cursor hgone).imp_right (Or.imp_left ?_)
      rintro ⟨worker, hworker, hm⟩
      exact ⟨worker, List.mem_append_left _ hworker, hm⟩
  | @lock w ask here free =>
    have hnew : (Worker.holding ask).release? ≠ some .dropped := nofun
    exact ⟨hlocked, h.isCancelled, h.prepared,
      fun q hq => h.dropped q (dropped_of_setWorker here hnew q hq),
      fun _ => .inr (.inl ⟨.holding ask, mem_set here _, rfl⟩)⟩
  | refuse here cancelled => exact h.setWorker here rfl nofun rfl
  | accept here isOpen => exact h.setWorker here rfl nofun rfl
  | @answer w ask d here =>
    have hmoved := answer_moved sh.host horizon d sh.session ask
    have hnew : (Worker.answered (sh.session.answer sh.host horizon d ask).result).release? ≠
        some .dropped := nofun
    refine ⟨hlocked, fun c hc hb => ?_, fun c hc hd => ?_, fun q hq => ?_,
      fun _ => .inr (.inl ⟨.answered _, mem_set here _, rfl⟩)⟩
    · exact hmoved.isCancelled.trans (h.isCancelled c hc hb)
    · exact (congrArg Handle.machine hmoved.prepared).trans (h.prepared c hc hd)
    · -- the worker has the lock, so nobody else has, who might have destroyed the cursor
      have hthere := dropped_of_setWorker here hnew q hq
      obtain rfl := h.locked.release?_eq hthere (q := .worker w)
        (congrArg (Option.any Worker.hasLock) here)
      have hnone : sh.release? (.worker w) = none := congrArg (·.bind Worker.release?) here
      cases hnone.symm.trans hthere
  | @unlock w r here =>
    have hnew : (if panicked r then Worker.gone r else .leaving r).release? ≠ some .dropped := by
      split <;> (intro hr; cases hr)
    refine ⟨hlocked, h.isCancelled, h.prepared,
      fun q hq => h.dropped q (dropped_of_setWorker here hnew q hq),
      fun _ => .inr (.inl ⟨_, mem_set here _, ?_⟩)⟩
    cases hp : panicked r with
    | true => exact hp
    | false => rfl
  | @leave w r here =>
    have hnew : (if sh.session.isCancelled then Worker.releasing .trying r else .gone r).release? ≠
        some .dropped := by
      split <;> (intro hr; cases hr)
    refine ⟨hlocked, h.isCancelled, h.prepared,
      fun q hq => h.dropped q (dropped_of_setWorker here hnew q hq),
      fun hgone => .inr (.inl ⟨_, mem_set here _, ?_⟩)⟩
    rw [if_pos (h.isCancelled _ hgone (by decide))]
    rfl
  | close =>
    refine ⟨hlocked, fun c hc hb => ?_, fun c hc hd => ?_, fun q hq => h.dropped q ?_,
      fun hgone => ?_⟩
    · obtain hc | hc := List.mem_append.1 hc
      · exact h.isCancelled c hc hb
      · exact absurd (List.mem_singleton.1 hc) hb
    · obtain hc | hc := List.mem_append.1 hc
      · exact h.prepared c hc hd
      · obtain rfl := List.mem_singleton.1 hc
        cases hd
    · cases q with
      | worker w => exact hq
      | closer c => exact (seen_append (·.bind Closer.release?) rfl sh.closers c).symm.trans hq
    · obtain hgone | hgone := List.mem_append.1 hgone
      · exact (h.cursor hgone).imp_right (Or.imp_right (List.mem_append_left _))
      · cases List.mem_singleton.1 hgone
  | @cancel c here =>
    have hnew : Closer.cancelled.release? ≠ some .dropped := nofun
    refine ⟨hlocked, fun _ _ _ => rfl, fun c' hc hd => ?_,
      fun q hq => h.dropped q (dropped_of_setCloser here hnew q hq), fun hgone => ?_⟩
    · obtain hc | rfl := List.mem_or_eq_of_mem_set hc
      · exact h.prepared c' hc hd
      · cases hd
    · obtain hgone | hgone := List.mem_or_eq_of_mem_set hgone
      · exact (h.cursor hgone).imp_right fun hm => hm.setCloser here rfl .cancelled
      · cases hgone
  | @dropPrepared c here =>
    have hnew : (Closer.releasing .trying).release? ≠ some .dropped := by decide
    refine ⟨hlocked, fun _ _ _ => ?_, fun _ _ _ => dropPrepared_prepared _ _,
      fun q hq => h.dropped q (dropped_of_setCloser here hnew q hq), fun hgone => ?_⟩
    · exact h.isCancelled .cancelled (List.mem_of_getElem? here) (by decide)
    · obtain hgone | hgone := List.mem_or_eq_of_mem_set hgone
      · exact (h.cursor hgone).imp_right fun hm => hm.setCloser here rfl (.releasing .trying)
      · cases hgone
  | @seize p here free =>
    obtain ⟨-, hsession, -, -⟩ := sh.proceed_spares (some .locked) p
    have hnext : some Release.locked ≠ some .dropped := by decide
    refine ⟨hlocked, fun c hc hb => ?_, fun c hc hd => ?_, fun q hq => ?_,
      fun _ => .inr (minded_of_seize here)⟩
    · exact (congrArg Session.isCancelled hsession).trans (h.isCancelled_proceed here hc hb)
    · exact (congrArg (·.prepared.machine) hsession).trans (h.prepared_proceed here hc hd)
    · exact (congrArg (·.cursor.machine) hsession).trans
        (h.dropped q (dropped_of_proceed here hnext q hq))
  | @pass p q here held =>
    obtain ⟨hholder, hsession, -, -⟩ := sh.proceed_spares none p
    have hnext : (none : Option Release) ≠ some .dropped := nofun
    have hdropped : ∀ q, (sh.proceed none p).release? q = some .dropped →
        (sh.proceed none p).session.cursor.machine = none := by
      intro q hq
      rw [hsession]
      exact h.dropped q (dropped_of_proceed here hnext q hq)
    refine ⟨hlocked, fun c hc hb => ?_, fun c hc hd => ?_, hdropped,
      fun _ => hlocked.minded (hholder.trans held) hdropped⟩
    · exact (congrArg Session.isCancelled hsession).trans (h.isCancelled_proceed here hc hb)
    · exact (congrArg (·.prepared.machine) hsession).trans (h.prepared_proceed here hc hd)
  | @dropCursor p here =>
    have hgone := dropCursor_cursor sh.host sh.session
    exact ⟨hlocked, fun c hc hb => h.isCancelled_proceed here hc hb,
      fun c hc hd => h.prepared_proceed here hc hd, fun _ _ => hgone, fun _ => .inl hgone⟩
  | @letGo p here =>
    obtain ⟨-, hsession, -, -⟩ := sh.proceed_spares none p
    have hgone : (sh.proceed none p).session.cursor.machine = none :=
      (congrArg (·.cursor.machine) hsession).trans (h.dropped p here)
    refine ⟨hlocked, fun c hc hb => ?_, fun c hc hd => ?_, fun _ _ => hgone, fun _ => .inl hgone⟩
    · exact (congrArg Session.isCancelled hsession).trans (h.isCancelled_proceed here hc hb)
    · exact (congrArg (·.prepared.machine) hsession).trans (h.prepared_proceed here hc hd)

end Rerun.Session.Shared
