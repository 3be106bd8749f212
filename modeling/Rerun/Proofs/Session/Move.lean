import Rerun.Proofs.Handle.Operation
import Rerun.Proofs.MachinePair
import Rerun.Proofs.Session.Memory
import Rerun.Session.Shared

/-!
# What happens to a session in many hands

What a question does to the machines of a session (`answer_moved`), and what an event does to the
session, to those who are at it, and to the lock (`step_move`). An event moves at most one party;
seen from all others nothing changes (`hasLock_setWorker`, `release?_proceed` and their like).
-/

namespace Rerun.Session

open Handle

variable {host : Host} {s : Session}

/-! ## Destroying -/

@[simp] theorem destroyed_machine (h : Handle) (host : Host) :
    (destroyed h host).1.machine = none := by
  unfold destroyed
  cases hm : h.machine with
  | none =>
    unfold destroy live
    rw [hm]
    exact hm
  | some i =>
    unfold destroy live
    rw [hm]
    rfl

@[simp] theorem dropPrepared_prepared (host : Host) (s : Session) :
    (s.dropPrepared host).1.prepared.machine = none := destroyed_machine s.prepared host

@[simp] theorem dropCursor_cursor (host : Host) (s : Session) :
    (s.dropCursor host).1.cursor.machine = none := destroyed_machine s.cursor host

theorem dropPrepared_moves (host : Host) (s : Session) :
    Moves host.registry s.handles [] (s.dropPrepared host).2.registry
      (s.dropPrepared host).1.handles :=
  (destroyed_moves s.prepared host).frame [s.cursor]

/-! ## Answering -/

/-- What a question does to a session besides the answer: the cursor goes on, and nothing is left
behind, or a copy of the prepared machine goes on in its place, and it is left behind destroyed. -/
structure Moved (host : Host) (s s' : Session) (left : List Handle) : Prop where
  prepared : s'.prepared = s.prepared
  isCancelled : s'.isCancelled = s.isCancelled
  cursor : s.cursor.Keeps s'.cursor ∧ left = [] ∨
    ∃ fresh host', s.prepared.copy host = .ok (fresh, host') ∧ fresh.Keeps s'.cursor ∧
      left = [(destroyed s.cursor host').1]

theorem Moved.rest (host : Host) (s : Session) : Moved host s s [] :=
  ⟨rfl, rfl, .inl ⟨.refl _, rfl⟩⟩

theorem Moved.goOn {s' : Session} {left : List Handle} {host' : Host} {r : Ran Handle × Host}
    (m : Moved host s s' left) (hr : s'.cursor.Spared host' r) :
    Moved host s (s'.goOn r).session left := by
  refine ⟨m.prepared, m.isCancelled, ?_⟩
  obtain ⟨hkeeps, hleft⟩ | ⟨fresh, copied, hcopy, hkeeps, hleft⟩ := m.cursor
  · exact .inl ⟨hkeeps.trans hr.keeps, hleft⟩
  · exact .inr ⟨fresh, copied, hcopy, hkeeps.trans hr.keeps, hleft⟩

theorem Moved.read {s₀ : Session} {left : List Handle} {a : Asked Unit}
    (m : Moved host s₀ a.session left) (f : Instance → Reply) :
    Moved host s₀ (a.read f).session left := by
  unfold Asked.read
  split <;> exact m

theorem rewind_moved {host' : Host} {s' : Session} {position : UInt64}
    (hr : s.rewind host position = .ok (s', host')) :
    Moved host s s' (s.stale host (.stepAt position)) := by
  obtain ⟨i, hl, hr⟩ := Result.of_bind hr
  have hlive : s.cursor.live = .ok i := Instance.lift_eq_ok hl
  unfold stale
  rw [hlive]
  split at hr
  · rename_i hlt
    obtain ⟨⟨fresh, copied⟩, hc, hr⟩ := Result.of_bind hr
    rw [hc]
    dsimp only at hr ⊢
    rw [if_pos hlt]
    cases hd : s.cursor.destroy copied with
    | ok r =>
      rw [hd] at hr
      cases hr
      exact ⟨rfl, rfl, .inr ⟨fresh, copied, hc, .refl _, rfl⟩⟩
    | error e =>
      rw [hd] at hr
      cases hr
      exact ⟨rfl, rfl, .inr ⟨fresh, _, hc, .refl _, rfl⟩⟩
  · rename_i hge
    cases hr
    refine ⟨rfl, rfl, .inl ⟨.refl _, ?_⟩⟩
    cases s.prepared.copy host with
    | error f => rfl
    | ok r => exact if_neg hge

/-- A cursor that cannot be brought back leaves nothing behind. -/
theorem stale_of_rewind_error {position : UInt64} {f : Failure}
    (hr : s.rewind host position = .error f) : s.stale host (.stepAt position) = [] := by
  cases hl : s.cursor.live with
  | error e =>
    unfold stale
    rw [hl]
  | ok i =>
    cases hc : s.prepared.copy host with
    | error g =>
      unfold stale
      rw [hl, hc]
    | ok r =>
      -- both the cursor and the prepared machine are there, so it could be brought back
      obtain ⟨fresh, copied⟩ := r
      have hrewind : s.rewind host position =
          if position < i.steps then s.restart host else .ok (s, host) := by
        unfold rewind
        rw [hl]
        rfl
      rw [hrewind] at hr
      split at hr
      · unfold restart at hr
        rw [hc] at hr
        cases hd : s.cursor.destroy copied <;> (simp only [bind, Except.bind, hd] at hr; cases hr)
      · cases hr

theorem seek_moved (host : Host) (d : Deadline) (position : UInt64) (s : Session) :
    Moved host s (s.seek host d position).session (s.stale host (.stepAt position)) := by
  unfold seek
  cases hr : s.rewind host position with
  | error f =>
    rw [stale_of_rewind_error hr]
    exact .rest host s
  | ok r =>
    obtain ⟨s', host'⟩ := r
    have hrewound := rewind_moved hr
    dsimp only
    split
    · exact hrewound
    · split
      · exact hrewound.goOn (step_spared host' d _ s'.cursor)
      · exact hrewound

/-- A question copies the prepared machine at most once, and the copy becomes the cursor. -/
theorem answer_moved (host : Host) (horizon : Nat) (d : Deadline) (s : Session) (ask : Ask) :
    Moved host s (s.answer host horizon d ask).session (s.stale host ask) := by
  cases ask with
  | stepAt position => exact (seek_moved host d position s).read _
  | proofAt position => exact (seek_moved host d position s).read _
  | last => exact ((Moved.rest host s).goOn (stepInChunks_spared host horizon d _ s.cursor)).read _

/-- What is left behind is destroyed. -/
theorem Moved.left_gone {s' : Session} {left : List Handle} (m : Moved host s s' left) :
    ∀ h ∈ left, h.machine = none := by
  obtain ⟨-, rfl⟩ | ⟨fresh, copied, -, -, rfl⟩ := m.cursor <;> simp

/-! ## Workers and callers -/

/-- Whether somebody who is releasing the cursor has the lock. -/
def Release.hasLock : Release → Bool
  | .trying => false
  | .locked | .dropped => true

namespace Worker

def hasLock : Worker → Bool
  | .holding _ | .admitted _ | .answered _ => true
  | .releasing stage _ => stage.hasLock
  | .started _ | .leaving _ | .gone _ => false

/-- Whether a worker minds the cursor: it has the lock, or gave it back and has not looked yet
whether the cursor is to be destroyed. Only a panic keeps it from looking. -/
def minds : Worker → Bool
  | .started _ => false
  | .gone r => panicked r
  | .holding _ | .admitted _ | .answered _ | .leaving _ | .releasing _ _ => true

theorem minds_of_hasLock {worker : Worker} (h : worker.hasLock = true) : worker.minds = true := by
  cases worker <;> first | rfl | cases h

/-- Whether a worker's question is refused, or will be: it was not admitted. -/
def isRefused : Worker → Prop
  | .started _ | .holding _ => True
  | .admitted _ => False
  | .answered r | .leaving r | .releasing _ r | .gone r => r = fail .cancelled

theorem release?_eq_some {worker : Worker} {stage : Release}
    (h : worker.release? = some stage) : ∃ r, worker = .releasing stage r := by
  cases worker with
  | releasing stage' r =>
    cases h
    exact ⟨r, rfl⟩
  | _ => cases h

end Worker

namespace Closer

def hasLock : Closer → Bool
  | .releasing stage => stage.hasLock
  | .begun | .cancelled | .gone => false

/-- Whether a caller has destroyed the prepared machine. -/
def isPastPrepared : Closer → Bool
  | .begun | .cancelled => false
  | .releasing _ | .gone => true

theorem release?_eq_some {closer : Closer} {stage : Release}
    (h : closer.release? = some stage) : closer = .releasing stage := by
  cases closer with
  | releasing stage' =>
    cases h
    rfl
  | _ => cases h

end Closer

namespace Shared

variable {horizon : Nat} {sh sh' : Shared} {p : Party} {stage : Release}

/-- What an event can do. -/
inductive Move (horizon : Nat) (sh : Shared) : Shared → Prop where
  | rest : Move horizon sh sh
  | start (ask : Ask) : Move horizon sh { sh with workers := sh.workers ++ [.started ask] }
  | lock {w : Nat} {ask : Ask} (here : sh.workers[w]? = some (.started ask))
      (free : sh.holder = none) :
      Move horizon sh { sh.setWorker w (.holding ask) with holder := some (.worker w) }
  | refuse {w : Nat} {ask : Ask} (here : sh.workers[w]? = some (.holding ask))
      (cancelled : sh.session.isCancelled = true) :
      Move horizon sh (sh.setWorker w (.answered (fail .cancelled)))
  | accept {w : Nat} {ask : Ask} (here : sh.workers[w]? = some (.holding ask))
      (isOpen : sh.session.isCancelled = false) : Move horizon sh (sh.setWorker w (.admitted ask))
  | answer {w : Nat} {ask : Ask} (d : Deadline) (here : sh.workers[w]? = some (.admitted ask)) :
      Move horizon sh
        { sh.setWorker w (.answered (sh.session.answer sh.host horizon d ask).result) with
          session := (sh.session.answer sh.host horizon d ask).session
          host := (sh.session.answer sh.host horizon d ask).host
          stale := sh.stale ++ sh.session.stale sh.host ask }
  | unlock {w : Nat} {r : Result Reply} (here : sh.workers[w]? = some (.answered r)) :
      Move horizon sh
        { sh.setWorker w (if panicked r then .gone r else .leaving r) with holder := none }
  | leave {w : Nat} {r : Result Reply} (here : sh.workers[w]? = some (.leaving r)) :
      Move horizon sh
        (sh.setWorker w (if sh.session.isCancelled then .releasing .trying r else .gone r))
  | close : Move horizon sh { sh with closers := sh.closers ++ [.begun] }
  | cancel {c : Nat} (here : sh.closers[c]? = some .begun) :
      Move horizon sh { sh.setCloser c .cancelled with session := sh.session.cancel }
  | dropPrepared {c : Nat} (here : sh.closers[c]? = some .cancelled) :
      Move horizon sh
        { sh.setCloser c (.releasing .trying) with
          session := (sh.session.dropPrepared sh.host).1
          host := (sh.session.dropPrepared sh.host).2 }
  | seize {p : Party} (here : sh.release? p = some .trying) (free : sh.holder = none) :
      Move horizon sh { sh.proceed (some .locked) p with holder := some p }
  | pass {p q : Party} (here : sh.release? p = some .trying) (held : sh.holder = some q) :
      Move horizon sh (sh.proceed none p)
  | dropCursor {p : Party} (here : sh.release? p = some .locked) :
      Move horizon sh
        { sh.proceed (some .dropped) p with
          session := (sh.session.dropCursor sh.host).1
          host := (sh.session.dropCursor sh.host).2 }
  | letGo {p : Party} (here : sh.release? p = some .dropped) :
      Move horizon sh { sh.proceed none p with holder := none }

theorem step_move (horizon : Nat) (sh : Shared) (e : Event) :
    Move horizon sh (sh.step horizon e) := by
  cases e with
  | start ask => exact .start ask
  | lock w =>
    unfold step
    dsimp only
    split
    · rename_i here free
      exact .lock here free
    · exact .rest
  | check w =>
    unfold step
    dsimp only
    split
    · rename_i here
      split
      · rename_i hc
        exact .refuse here hc
      · rename_i hc
        exact .accept here (Bool.eq_false_iff.2 hc)
    · exact .rest
  | answer w d =>
    unfold step
    dsimp only
    split
    · rename_i ask here
      split
      · exact .rest
      · exact .answer d here
    · exact .rest
  | unlock w =>
    unfold step
    dsimp only
    split
    · rename_i here
      exact .unlock here
    · exact .rest
  | leave w =>
    unfold step
    dsimp only
    split
    · rename_i here
      exact .leave here
    · exact .rest
  | close => exact .close
  | cancel c =>
    unfold step
    dsimp only
    split
    · rename_i here
      exact .cancel here
    · exact .rest
  | dropPrepared c =>
    unfold step
    dsimp only
    split
    · rename_i here
      exact .dropPrepared here
    · exact .rest
  | tryLock p =>
    unfold step
    dsimp only
    split
    · rename_i here free
      exact .seize here free
    · rename_i q here held
      exact .pass here held
    · exact .rest
  | dropCursor p =>
    unfold step
    dsimp only
    split
    · rename_i here
      exact .dropCursor here
    · exact .rest
  | letGo p =>
    unfold step
    dsimp only
    split
    · rename_i here
      exact .letGo here
    · exact .rest

/-- What every move keeps holds after every run. -/
theorem run_induction {P : Shared → Prop} (hstep : ∀ {sh sh'}, Move horizon sh sh' → P sh → P sh')
    (h : P sh) (events : List Event) : P (sh.run horizon events) := by
  induction events generalizing sh with
  | nil => exact h
  | cons e rest ih => exact ih (hstep (step_move horizon sh e) h)

/-! ## One party among the others -/

/-- Whether somebody's place is one with the lock. -/
def hasLock (sh : Shared) : Party → Bool
  | .worker w => sh.workers[w]?.any Worker.hasLock
  | .closer c => sh.closers[c]?.any Closer.hasLock

/-- Moving one member of a list is seen at its place only. -/
theorem seen_set {α β : Type} {xs : List α} {n : Nat} {old : α} (here : xs[n]? = some old) (new : α)
    (see : Option α → β) (k : Nat) :
    see (xs.set n new)[k]? = if k = n then see (some new) else see xs[k]? := by
  obtain ⟨hlt, -⟩ := List.getElem?_eq_some_iff.1 here
  by_cases hk : k = n
  · rw [if_pos hk, hk, List.getElem?_set_self hlt]
  · rw [if_neg hk, List.getElem?_set_ne (Ne.symm hk)]

/-- A newcomer is not seen if it looks like nobody. -/
theorem seen_append {α β : Type} (see : Option α → β) {new : α} (hnew : see (some new) = see none)
    (xs : List α) (k : Nat) : see (xs ++ [new])[k]? = see xs[k]? := by
  rw [List.getElem?_append]
  split
  · rfl
  · have hnone : xs[k]? = none := List.getElem?_eq_none (by omega)
    rw [hnone]
    cases k - xs.length with
    | zero => exact hnew
    | succ k => rfl

theorem mem_set {α : Type} {xs : List α} {n : Nat} {old : α} (here : xs[n]? = some old) (new : α) :
    new ∈ xs.set n new :=
  List.mem_set (List.getElem?_eq_some_iff.1 here).1 new

/-- Another member stays where it is. -/
theorem mem_set_of_ne {α : Type} {xs : List α} {n : Nat} {old x : α} (here : xs[n]? = some old)
    (hx : x ∈ xs) (hne : x ≠ old) (new : α) : x ∈ xs.set n new := by
  obtain ⟨k, hk⟩ := List.mem_iff_getElem?.1 hx
  have hkn : n ≠ k := by
    rintro rfl
    exact hne (Option.some.inj (hk.symm.trans here))
  exact List.mem_iff_getElem?.2 ⟨k, (List.getElem?_set_ne hkn).trans hk⟩

theorem hasLock_setWorker {w : Nat} {old : Worker} (here : sh.workers[w]? = some old)
    (new : Worker) (q : Party) :
    (sh.setWorker w new).hasLock q = if q = .worker w then new.hasLock else sh.hasLock q := by
  cases q with
  | worker v =>
    simp only [Party.worker.injEq]
    exact seen_set here new (Option.any Worker.hasLock) v
  | closer c => rfl

theorem hasLock_setCloser {c : Nat} {old : Closer} (here : sh.closers[c]? = some old)
    (new : Closer) (q : Party) :
    (sh.setCloser c new).hasLock q = if q = .closer c then new.hasLock else sh.hasLock q := by
  cases q with
  | worker w => rfl
  | closer d =>
    simp only [Party.closer.injEq]
    exact seen_set here new (Option.any Closer.hasLock) d

theorem release?_setWorker {w : Nat} {old : Worker} (here : sh.workers[w]? = some old)
    (new : Worker) (q : Party) :
    (sh.setWorker w new).release? q = if q = .worker w then new.release? else sh.release? q := by
  cases q with
  | worker v =>
    simp only [Party.worker.injEq]
    exact seen_set here new (·.bind Worker.release?) v
  | closer c => rfl

theorem release?_setCloser {c : Nat} {old : Closer} (here : sh.closers[c]? = some old)
    (new : Closer) (q : Party) :
    (sh.setCloser c new).release? q = if q = .closer c then new.release? else sh.release? q := by
  cases q with
  | worker w => rfl
  | closer d =>
    simp only [Party.closer.injEq]
    exact seen_set here new (·.bind Closer.release?) d

/-- Whoever is releasing the cursor is a worker or a caller that is moved. -/
theorem proceed_cases (here : sh.release? p = some stage) (next : Option Release) :
    (∃ w r, p = .worker w ∧ sh.workers[w]? = some (.releasing stage r) ∧
      sh.proceed next p = sh.setWorker w (.proceed next (.releasing stage r))) ∨
    ∃ c, p = .closer c ∧ sh.closers[c]? = some (.releasing stage) ∧
      sh.proceed next p = sh.setCloser c (.proceed next (.releasing stage)) := by
  cases p with
  | worker w =>
    obtain ⟨worker, hworker, hstage⟩ := Option.bind_eq_some_iff.1 here
    obtain ⟨r, rfl⟩ := Worker.release?_eq_some hstage
    refine .inl ⟨w, r, rfl, hworker, ?_⟩
    unfold proceed setWorker
    dsimp only
    rw [List.modify_eq_set_getElem?, hworker]
    rfl
  | closer c =>
    obtain ⟨closer, hcloser, hstage⟩ := Option.bind_eq_some_iff.1 here
    obtain rfl := Closer.release?_eq_some hstage
    refine .inr ⟨c, rfl, hcloser, ?_⟩
    unfold proceed setCloser
    dsimp only
    rw [List.modify_eq_set_getElem?, hcloser]
    rfl

theorem hasLock_proceed (here : sh.release? p = some stage) (next : Option Release) (q : Party) :
    (sh.proceed next p).hasLock q = if q = p then next.any Release.hasLock else sh.hasLock q := by
  obtain ⟨w, r, rfl, hw, heq⟩ | ⟨c, rfl, hc, heq⟩ := proceed_cases here next
  · rw [heq, hasLock_setWorker hw]
    cases next <;> rfl
  · rw [heq, hasLock_setCloser hc]
    cases next <;> rfl

theorem release?_proceed (here : sh.release? p = some stage) (next : Option Release) (q : Party) :
    (sh.proceed next p).release? q = if q = p then next else sh.release? q := by
  obtain ⟨w, r, rfl, hw, heq⟩ | ⟨c, rfl, hc, heq⟩ := proceed_cases here next
  · rw [heq, release?_setWorker hw]
    cases next <;> rfl
  · rw [heq, release?_setCloser hc]
    cases next <;> rfl

/-- Nothing but the place of the party changes. -/
theorem proceed_spares (sh : Shared) (next : Option Release) (p : Party) :
    (sh.proceed next p).holder = sh.holder ∧ (sh.proceed next p).session = sh.session ∧
      (sh.proceed next p).host = sh.host ∧ (sh.proceed next p).stale = sh.stale := by
  cases p <;> exact ⟨rfl, rfl, rfl, rfl⟩

theorem hasLock_of_release? (here : sh.release? p = some stage) :
    sh.hasLock p = stage.hasLock := by
  obtain ⟨w, r, rfl, hw, -⟩ | ⟨c, rfl, hc, -⟩ := proceed_cases here none
  · exact congrArg (Option.any Worker.hasLock) hw
  · exact congrArg (Option.any Closer.hasLock) hc

end Shared

end Rerun.Session
