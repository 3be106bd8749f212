import Rerun.Handle.Op
import Rerun.Proofs.Handle.Resumption
import Rerun.Proofs.Handle.Splitting
import Rerun.Proofs.Machine.Boundary

/-!
# Calls up to the first boundary

A call that runs a machine up to host input leaves it at the first boundary of its run and touches
nothing that the machine was given. So it makes no difference whether the machine is given its start
state, its messages and its resolver before the call or afterwards (`stops_at_first_boundary`).
-/

namespace Rerun.Handle

open Machine

/-! ## The call -/

section Call

variable {host : Host} {horizon : Nat} {d : Deadline} {m a : Machine} {family : Option Nat} {n : Nat}

/-- Nobody who has patience for the steps up to a boundary takes the call for endless. -/
theorem stepUntilHostIo_ne_endless (h : m.ComesFirstTo host.registry.resolve n a)
    (hn : n ≤ horizon) (d : Deadline) :
    ((plain m false family).stepUntilHostIo host horizon d).1.result ≠ .error .endless := by
  obtain ⟨-, -, hresult⟩ := call_plain .untilHostIo horizon host d m family
  have hcourse : (Call.untilHostIo.course host.registry.resolve horizon m
      (Call.untilHostIo.looks d)).1 = .ok () := by
    cases Call.untilHostIo.looks d with
    | none =>
      show (if (m.walk horizon).waits then _ else _) = _
      rw [h.walk_eq hn, if_pos (waits_iff.2 h.boundary)]
    | some looks => rfl
  rw [hcourse] at hresult
  intro hendless
  have hwatched := hresult.symm.trans hendless
  unfold watchedResult at hwatched
  dsimp only at hwatched
  split at hwatched <;> cases hwatched

/-- A call that is not interrupted and comes to an end leaves the machine at the first boundary. -/
theorem exists_comesFirstTo
    (hd : ((plain m false family).stepUntilHostIo host horizon d).1.deadline.isExpired = false)
    (hend : ((plain m false family).stepUntilHostIo host horizon d).1.result ≠
      .error .endless) :
    ∃ n a, m.ComesFirstTo host.registry.resolve n a ∧
      leaves ((plain m false family).stepUntilHostIo host horizon d) =
        (.ok (), plain a false family, host) := by
  have hunexpired : (Call.untilHostIo.on horizon host d (plain m false family)).1.deadline.isExpired =
      false := hd
  obtain ⟨e, ⟨a, hahead, hwaits, rfl⟩, hresult, hmachine⟩ := ends_of_unexpired hunexpired hend
  obtain ⟨n, hfirst⟩ := hahead.exists_comesFirstTo hwaits host.registry.resolve
  have hhost := (call_plain .untilHostIo horizon host d m family).1
  exact ⟨n, a, hfirst, Prod.ext hresult (Prod.ext hmachine hhost)⟩

theorem leaves_stepUntilHostIo (h : m.ComesFirstTo host.registry.resolve n a) (hn : n ≤ horizon)
    (hd : ((plain m false family).stepUntilHostIo host horizon d).1.deadline.isExpired = false) :
    leaves ((plain m false family).stepUntilHostIo host horizon d) =
      (.ok (), plain a false family, host) := by
  obtain ⟨n', a', hfirst, hleaves⟩ := exists_comesFirstTo hd (stepUntilHostIo_ne_endless h hn d)
  rw [hleaves, h.ahead.unique hfirst.ahead (waits_iff.2 h.boundary) (waits_iff.2 hfirst.boundary)]

end Call

/-! ## What a machine is given -/

/-- Whether an operation gives the machine something: a state, a message or a resolver. -/
def Op.Gives : Op → Prop
  | .setGlobal _ | .addMessage _ _ | .setResolver _ => True
  | _ => False

/-- What is answered to some operations, one after another, and what they leave. -/
def performAll (horizon : Nat) : Host → Handle → List Op → List (Result Reply) × Handle × Host
  | host, h, [] => ([], h, host)
  | host, h, op :: ops =>
    let done := h.perform horizon host op
    let (replies, left) := performAll horizon done.host done.handle ops
    (done.reply :: replies, left)

section Given

variable {resolve : Resolve} {m a : Machine} {n : Nat}

/-- Two machines, of which the one comes to the other, are given the same. -/
theorem perform_gives {op : Op} (hop : op.Gives) (h : m.ComesFirstTo resolve n a) (horizon : Nat)
    (host : Host) (family : Option Nat) :
    ∃ reply host' m' a' family',
      (plain m false family).perform horizon host op = ⟨reply, host', plain m' false family'⟩ ∧
      (plain a false family).perform horizon host op = ⟨reply, host', plain a' false family'⟩ ∧
      m'.ComesFirstTo resolve n a' := by
  obtain ⟨-, hinbox, hcontext⟩ := h.ahead.given_eq
  have hglobal := h.ahead.global_eq
  cases op with
  | setGlobal g =>
    have hgiven := h.given resolve g m.inbox m.context
    have hsame : a.given g m.inbox m.context = a.setGlobal g := by
      rw [← hinbox, ← hcontext]
      rfl
    rw [hsame] at hgiven
    exact ⟨_, _, m.setGlobal g, a.setGlobal g, _, rfl, rfl, hgiven⟩
  | addMessage inbox msg =>
    have hgiven := h.given resolve m.progress.global (((inbox, msg.index), msg.data) :: m.inbox)
      m.context
    have hsame : a.given m.progress.global (((inbox, msg.index), msg.data) :: m.inbox) m.context =
        a.addMessage inbox msg := by
      rw [← hglobal, ← hinbox, ← hcontext]
      rfl
    rw [hsame] at hgiven
    exact ⟨_, _, m.addMessage inbox msg, a.addMessage inbox msg, _, rfl, rfl, hgiven⟩
  | setResolver resolver =>
    have hgiven := h.given resolve m.progress.global m.inbox (host.registry.lastToken + 1)
    have hsame : a.given m.progress.global m.inbox (host.registry.lastToken + 1) =
        a.withToken (host.registry.lastToken + 1) := by
      rw [← hglobal, ← hinbox]
      rfl
    rw [hsame] at hgiven
    exact ⟨_, _, m.withToken (host.registry.lastToken + 1),
      a.withToken (host.registry.lastToken + 1), _, rfl, rfl, hgiven⟩
  | _ => exact absurd hop id

/-- However much they are given, the one still comes to the other, whoever answers for contents. -/
theorem performAll_gives {ops : List Op} (hops : ∀ op ∈ ops, op.Gives)
    (h : m.ComesFirstTo resolve n a) (horizon : Nat) (host : Host) (family : Option Nat) :
    ∃ replies host' m' a' family',
      performAll horizon host (plain m false family) ops =
        (replies, plain m' false family', host') ∧
      performAll horizon host (plain a false family) ops =
        (replies, plain a' false family', host') ∧
      ∀ resolve', m'.ComesFirstTo resolve' n a' := by
  induction ops generalizing m a host family with
  | nil => exact ⟨_, host, m, a, family, rfl, rfl, h.whoever⟩
  | cons op ops ih =>
    obtain ⟨reply, host₁, m₁, a₁, family₁, hm, ha, hfirst⟩ :=
      perform_gives (hops op List.mem_cons_self) h horizon host family
    obtain ⟨replies, host', m', a', family', hm', ha', hfirst'⟩ :=
      ih (fun op hop => hops op (List.mem_cons_of_mem _ hop)) hfirst host₁ family₁
    refine ⟨reply :: replies, host', m', a', family', ?_, ?_, hfirst'⟩
    · rw [performAll, hm]
      dsimp only
      rw [hm']
    · rw [performAll, ha]
      dsimp only
      rw [ha']

end Given

/-- For every machine of the builtin engine, whatever its state, its messages and the resolvers: a
call that is not interrupted comes to an end if and only if some number of steps brings the machine
to a boundary. It does not fail, leaves the machine behind the least such number of steps, with its
global state, its messages and its token as they were, and what all machines share. Another call
changes nothing. And whatever states, messages and resolvers are given to the machine before the
call, are answered alike and leave the same if they are given afterwards. -/
theorem stops_at_first_boundary (host : Host) (m : Machine) (family : Option Nat) :
    let resolve := host.registry.resolve
    let h := plain m false family
    (∀ n a, m.ComesFirstTo resolve n a → ∀ horizon, n ≤ horizon → ∀ d,
      (h.stepUntilHostIo host horizon d).1.result ≠ .error .endless) ∧
    ∀ horizon d,
      let r := h.stepUntilHostIo host horizon d
      r.1.deadline.isExpired = false → r.1.result ≠ .error .endless →
        ∃ n a, m.ComesFirstTo resolve n a ∧ leaves r = (.ok (), plain a false family, host) ∧
          a.progress.global = m.progress.global ∧ a.inbox = m.inbox ∧ a.context = m.context ∧
          (∀ horizon' d',
            let again := r.1.machine.stepUntilHostIo r.2 horizon' d'
            again.1.deadline.isExpired = false → leaves again = leaves r) ∧
          ∀ ops : List Op, (∀ op ∈ ops, op.Gives) → ∀ horizon', n ≤ horizon' → ∀ d',
            let before := performAll horizon' host h ops
            let call := before.2.1.stepUntilHostIo before.2.2 horizon' d'
            call.1.deadline.isExpired = false →
              call.1.result = .ok () ∧
                performAll horizon' r.2 r.1.machine ops =
                  (before.1, call.1.machine, call.2) := by
  intro resolve h
  refine ⟨fun n a hfirst horizon hn d => stepUntilHostIo_ne_endless hfirst hn d, ?_⟩
  intro horizon d r hd hend
  obtain ⟨n, a, hfirst, hleaves⟩ := exists_comesFirstTo hd hend
  obtain ⟨-, hinbox, hcontext⟩ := hfirst.ahead.given_eq
  have hmachine : r.1.machine = plain a false family :=
    congrArg (fun e : Result Unit × Handle × Host => e.2.1) hleaves
  have hhost : r.2 = host := congrArg (fun e : Result Unit × Handle × Host => e.2.2) hleaves
  refine ⟨n, a, hfirst, hleaves, hfirst.ahead.global_eq, hinbox, hcontext, ?_, ?_⟩
  · intro horizon' d' again hd'
    have hagain : leaves again = (.ok (), plain a false family, host) := by
      simp only [again, hmachine, hhost] at hd' ⊢
      exact leaves_stepUntilHostIo (.here hfirst.boundary) (Nat.zero_le _) hd'
    exact hagain.trans hleaves.symm
  · intro ops hops horizon' hn d' before call hd'
    obtain ⟨replies, host', m', a', family', hm', ha', hfirst'⟩ :=
      performAll_gives hops hfirst horizon' host family
    have hbefore : before = (replies, plain m' false family', host') := hm'
    have hcall : leaves call = (.ok (), plain a' false family', host') := by
      simp only [call, hbefore] at hd' ⊢
      exact leaves_stepUntilHostIo (hfirst' _) hn hd'
    obtain ⟨hresult, hleft⟩ := Prod.ext_iff.1 hcall
    refine ⟨hresult, ?_⟩
    rw [hmachine, hhost, ha', hbefore]
    exact congrArg (Prod.mk replies) hleft.symm

/-- A machine that comes to its first message in two steps is given the message before or
afterwards. -/
theorem stops_at_first_boundary_at_message :
    let m := ofProgram ⟨[.mix 1, .jump 3, .halt, .readInbox .sequencer]⟩
    let host : Host := ⟨⟨[], []⟩, .empty, none⟩
    let ops : List Op := [.setGlobal { (default : GlobalState) with batch := 4 },
      .addMessage .sequencer ⟨4, [0x2A]⟩, .setResolver (.always [])]
    let r := (plain m false none).stepUntilHostIo host 9 .never
    let before := performAll 9 host (plain m false none) ops
    let call := before.2.1.stepUntilHostIo before.2.2 9 .never
    r.1.machine.machine.map Instance.steps = some 2 ∧ call.1.result = .ok () ∧
      performAll 9 r.2 r.1.machine ops = (before.1, call.1.machine, call.2) := by
  intro m host ops r before call
  obtain ⟨-, hends⟩ := stops_at_first_boundary host m none
  obtain ⟨n, a, hfirst, -, -, -, -, -, hgives⟩ := hends 9 .never rfl nofun
  have hn : n ≤ 2 := by
    by_contra hn
    exact hfirst.least 2 (by omega) (.inr (.inl ⟨.sequencer, rfl⟩))
  obtain ⟨hresult, hleft⟩ := hgives ops (by simp [ops, Op.Gives]) 9 (by omega) .never rfl
  exact ⟨rfl, hresult, hleft⟩

end Rerun.Handle
