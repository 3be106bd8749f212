import Rerun.Proofs.Handle.MoreInput
import Rerun.Proofs.Handle.Resumption
import Rerun.Proofs.Machine.Reading

/-!
# Messages in order, for handles with an input

Whatever calls run a handle with an input, and whatever resolvers it gets between them, its machine
takes the messages of the input in order: the ones from the sequencer one after the other from the
batch of the start state on, and behind each of them the delayed ones from the first on
(`messages_taken_in_order`).
-/

namespace Rerun

open Machine

/-! ## The messages of an input -/

namespace Input

variable {x : Input} {ts : List Taken} {m : Machine}

/-- The message of an input that is due in an inbox after some messages. -/
def due? (x : Input) (ts : List Taken) (inbox : Inbox) : Option Bytes :=
  x.message? inbox (.ofNat (due x.startState ts inbox))

/-- Whether a machine stands where it has to after some messages of an input: they were taken in
order, the machine is at the places that are due now, and its next step takes the message that is
due in the inbox that it asks for, or makes it too far and does nothing else. -/
structure IsReadBy (x : Input) (ts : List Taken) (m : Machine) : Prop where
  inOrder : IsInOrder x.startState ts
  listed : ∀ t ∈ ts, x.message? t.inbox t.index = some t.data
  batch : m.progress.global.batch.toNat = due x.startState ts .sequencer
  posInBatch : m.progress.global.posInBatch.toNat = due x.startState ts .delayed
  takes : ∀ resolve inbox data, m.current = some (.readInbox inbox) →
    x.due? ts inbox = some data →
      m.next resolve = .ok (m.take ⟨inbox, .ofNat (due x.startState ts inbox), data⟩)
  leaves : ∀ resolve m', (∀ inbox, m.current ≠ some (.readInbox inbox)) →
    m.next resolve = .ok m' → m'.progress.global.blockHash = m.progress.global.blockHash ∧
      m'.progress.global.batch = m.progress.global.batch ∧
      m'.progress.global.posInBatch = m.progress.global.posInBatch
  tooFar : ∀ resolve m', m.progress.status = .running →
    (m.next resolve = .ok m' ∧ m'.progress.status = .tooFar ↔
      (∃ inbox, m.current = some (.readInbox inbox) ∧ x.due? ts inbox = none) ∧
        m' = m.setStatus .tooFar)

/-- An execution of a machine that has its messages from an input alone reads the input. -/
theorem isReadBy_of_execution {m₀ : Machine} (hstart : m₀.progress.global = x.startState)
    (hmessages : m₀.message? = x.message?) (h : Execution m₀ ts m) (hroom : HasRoom ts) :
    x.IsReadBy ts m := by
  obtain ⟨horder, hdue⟩ := h.inOrder hroom
  rw [hstart] at horder hdue
  have hfound : m.message? = x.message? := h.message?_eq.trans hmessages
  have hplace : ∀ inbox,
      nextIndex m.progress.global inbox = .ofNat (due x.startState ts inbox) := fun inbox => by
    rw [← hdue inbox, UInt64.ofNat_toNat]
  have hnext : ∀ inbox,
      m.message? inbox (nextIndex m.progress.global inbox) = x.due? ts inbox := fun inbox => by
    rw [hfound, hplace]
    rfl
  refine ⟨horder, fun t ht => ?_, hdue .sequencer, hdue .delayed, ?_, ?_, ?_⟩
  · rw [← hmessages]
    exact h.data_eq ht
  · intro resolve inbox data hc hdata
    refine next_of_taken resolve (taken?_eq_some.2 ⟨hc, (hplace inbox).symm, ?_⟩)
    rw [hfound]
    exact hdata
  · intro resolve m' hc hn
    have hnone : m.taken? = none := by
      rw [Option.eq_none_iff_forall_ne_some]
      intro t ht
      exact hc _ (taken?_eq_some.1 ht).1
    obtain ⟨hhash, hsame⟩ := next_of_not_taken hnone hn
    exact ⟨hhash, hsame .sequencer, hsame .delayed⟩
  · intro resolve m' hs
    rw [next_tooFar_iff (by simp [hs])]
    simp only [Misses, hnext]

end Input

/-! ## Executions of handles -/

namespace Handle

open Session

/-- What a handle comes to by calls that run it, however each of them ends, and by resolvers that it
is given between them, whatever becomes of all that machines share. -/
inductive ComesTo : Handle → Handle → Prop
  | here (h : Handle) : ComesTo h h
  | call {h h' : Handle} (call : Call) (horizon : Nat) (host : Host) (d : Deadline)
      (rest : ComesTo (call.on horizon host d h).1.machine h') : ComesTo h h'
  | rebind {h next h' : Handle} (resolver : Resolver) (host host' : Host) (token : Nat)
      (bound : h.setResolver host resolver = .ok (token, next, host'))
      (rest : ComesTo next h') : ComesTo h h'

/-- That is an execution of its machine. -/
theorem ComesTo.execution {m₀ : Machine} {family : Option Nat} {h : Handle}
    (hc : ComesTo (plain m₀ false family) h) :
    ∃ ts m family', h = plain m false family' ∧ Execution m₀ ts m := by
  generalize hs : plain m₀ false family = h₀ at hc
  induction hc generalizing m₀ family with
  | here h => exact ⟨[], m₀, family, hs.symm, .start⟩
  | call call horizon host d rest ih =>
    subst hs
    obtain ⟨-, hmachine, -⟩ := call_plain call horizon host d m₀ family
    obtain ⟨n, hcomes, -⟩ :=
      course_isPart host.registry.resolve horizon m₀ call (call.looks d)
    obtain ⟨ts, m, family', rfl, hrest⟩ := ih hmachine.symm
    have hfirst := Execution.of_run host.registry.resolve n m₀
    rw [hcomes.run] at hfirst
    exact ⟨_, m, family', rfl, hfirst.trans hrest⟩
  | rebind resolver host host' token bound rest ih =>
    subst hs
    rw [setResolver_plain] at bound
    cases bound
    obtain ⟨ts, m, family', rfl, hrest⟩ := ih rfl
    exact ⟨_, m, family', rfl, (Execution.start.rebind _).trans hrest⟩

/-- For every machine without messages of its own and every input: whatever calls and resolvers lead
a copy with the input to, is an execution of its machine; and along every execution, as long as no
place in an inbox is the last one there is, the messages of the input are taken in order, the
machine stands at the places that are due, it does not go back, and it becomes too far if and only
if it asks for a message that is not there. -/
theorem messages_taken_in_order {m : Machine} (hm : m.inbox = []) (isFrozen : Bool) (host : Host)
    (x : Input) :
    let t := host.registry.lastToken + 1
    let m₀ := m.loaded x t
    prepare host (plain m isFrozen none) x =
        (.ok (plain m₀ false (some t)), supplied host x) ∧
      (∀ h, ComesTo (plain m₀ false (some t)) h →
        ∃ ts m family, h = plain m false family ∧ Execution m₀ ts m) ∧
      ∀ ts m, Execution m₀ ts m → HasRoom ts →
        x.IsReadBy ts m ∧
          ∀ ts' m', Execution m ts' m' → HasRoom ts' →
            NotBefore m.progress.global m'.progress.global := by
  intro t m₀
  have hmessages : m₀.message? = x.message? := by
    funext inbox index
    have hnone : m.message? inbox index = none := by simp [Machine.message?, hm]
    rw [loaded_message?, hnone, Option.or_none]
  refine ⟨prepare_plain host m isFrozen x, fun h hc => hc.execution, fun ts m' h hroom => ?_⟩
  exact ⟨Input.isReadBy_of_execution rfl hmessages h hroom,
    fun ts' m'' h' hroom' => h'.notBefore hroom'⟩

/-- A program that takes a delayed message and one from the sequencer, over and over. -/
def alternator : Program := ⟨[.readInbox .delayed, .readInbox .sequencer, .jump 0]⟩

/-- An input that starts in the middle of both inboxes. One message takes the place of another. -/
def alternatorInput : Input :=
  { (default : Input) with
    startState := { (default : GlobalState) with batch := 5, posInBatch := 7 }
    sequencerMessages := [⟨5, [0x09]⟩, ⟨6, [0x04]⟩, ⟨5, [0x02]⟩]
    delayedMessages := [⟨0, [0x03]⟩, ⟨7, [0x01]⟩] }

/-- It takes its first delayed message at the position of the start state and all others at the
first position of their batch, until there is no message from the sequencer any more. -/
theorem messages_taken_in_order_by_alternator :
    let m₀ := (ofProgram alternator).loaded alternatorInput 1
    let resolve := (supplied readerHost alternatorInput).registry.resolve
    let ts := m₀.takenBy resolve 7
    ts = [⟨.delayed, 7, [0x01]⟩, ⟨.sequencer, 5, [0x02]⟩, ⟨.delayed, 0, [0x03]⟩,
        ⟨.sequencer, 6, [0x04]⟩, ⟨.delayed, 0, [0x03]⟩] ∧
      alternatorInput.IsReadBy ts (m₀.run resolve 7).2 ∧
      m₀.run resolve 8 = (.ok (), (m₀.run resolve 7).2.setStatus .tooFar) := by
  intro m₀ resolve ts
  have hts : ts = [⟨.delayed, 7, [0x01]⟩, ⟨.sequencer, 5, [0x02]⟩, ⟨.delayed, 0, [0x03]⟩,
      ⟨.sequencer, 6, [0x04]⟩, ⟨.delayed, 0, [0x03]⟩] := rfl
  have hroom : HasRoom ts := by
    rw [hts]
    unfold HasRoom
    decide
  obtain ⟨-, -, hreads⟩ := messages_taken_in_order (m := ofProgram alternator) rfl true readerHost
    alternatorInput
  obtain ⟨hread, -⟩ := hreads ts _ (Execution.of_run resolve 7 m₀) hroom
  exact ⟨hts, hread, rfl⟩

end Handle

end Rerun
