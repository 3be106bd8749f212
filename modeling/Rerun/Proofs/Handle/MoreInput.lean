import Rerun.Proofs.Handle.Splitting
import Rerun.Proofs.Machine.Covers
import Rerun.Proofs.Session.LastStep

/-!
# More input

A run takes of its input what its machine asks for: messages by inbox and index, of which the one
listed last counts (`Input.lookup_messages`), and content by its hash. A run that comes to an end
with some input, other than for want of something, found all that it asked for. So whoever supplies
the same and more, in whatever order, comes to the same end (`more_input_settles_alike`).
-/

namespace Rerun

/-! ## What an input holds -/

namespace Input

/-- The data of the last message with an index. -/
def lastAt (msgs : List Message) (index : UInt64) : Option Bytes :=
  ((msgs.filter (·.index = index)).getLast?).map (·.data)

/-- The messages for an inbox, as they are listed. -/
def listed (x : Input) : Inbox → List Message
  | .sequencer => x.sequencerMessages
  | .delayed => x.delayedMessages

/-- The message at an index of an inbox. -/
def message? (x : Input) (inbox : Inbox) (index : UInt64) : Option Bytes :=
  lastAt (x.listed inbox) index

/-- Whether another input starts from the same state, and holds every message and every content that
this one holds. It can hold more, list it in another order, and have another number. -/
structure IsPartOf (x x' : Input) : Prop where
  startState : x'.startState = x.startState
  messages : ∀ inbox index data,
    x.message? inbox index = some data → x'.message? inbox index = some data
  preimages : ∀ hash content,
    x.preimages.lookup hash = some content → x'.preimages.lookup hash = some content

/-- A message in front of others counts only if none of them has its index. -/
theorem lastAt_cons (msg : Message) (msgs : List Message) (index : UInt64) :
    lastAt (msg :: msgs) index =
      (lastAt msgs index).or (if index = msg.index then some msg.data else none) := by
  unfold lastAt
  by_cases h : msg.index = index
  · rw [List.filter_cons_of_pos (by simpa using h), List.getLast?_cons, if_pos h.symm]
    cases (msgs.filter (·.index = index)).getLast? <;> simp
  · rw [List.filter_cons_of_neg (by simpa using h), if_neg (Ne.symm h), Option.or_none]

/-- Messages that are put in place of each other one by one. -/
theorem lookup_listed (msgs : List Message) (inbox inbox' : Inbox) (index : UInt64) :
    ((msgs.map fun msg => ((inbox, msg.index), msg.data)).reverse).lookup (inbox', index) =
      if inbox' = inbox then lastAt msgs index else none := by
  induction msgs with
  | nil => simp [lastAt]
  | cons msg msgs ih =>
    rw [List.map_cons, List.reverse_cons, Lookup.concat, ih, lastAt_cons]
    by_cases hi : inbox' = inbox
    · subst hi
      simp
    · simp [hi]

/-- The message that a machine finds is the one that was listed last. -/
theorem lookup_messages (x : Input) (inbox : Inbox) (index : UInt64) :
    x.messages.lookup (inbox, index) = x.message? inbox index := by
  unfold messages message?
  rw [List.reverse_append, List.lookup_append, lookup_listed, lookup_listed]
  cases inbox <;> simp [listed]

end Input

namespace Machine

variable {m : Machine} {x x' : Input}

theorem loaded_message? (m : Machine) (x : Input) (token : Nat) (inbox : Inbox)
    (index : UInt64) :
    (m.loaded x token).message? inbox index =
      (x.message? inbox index).or (m.message? inbox index) := by
  have hinbox : (m.loaded x token).inbox = x.messages ++ m.inbox := rfl
  simp only [Machine.message?, hinbox, List.lookup_append, Input.lookup_messages]

/-- A machine without messages of its own finds whatever it finds in an input also in any input that
holds the same. -/
theorem loaded_covers (hm : m.inbox = []) (hx : x.IsPartOf x') {r r' : Registry}
    {token token' : Nat} (h : r.found? token = some x.resolver)
    (h' : r'.found? token' = some x'.resolver) :
    (m.loaded x token).Covers r.resolve r'.resolve (m.loaded x' token') := by
  have hnone : ∀ inbox index, m.message? inbox index = none := by
    intro inbox index
    simp [Machine.message?, hm]
  refine ⟨rfl, ?_, ?_, ?_⟩
  · show ({ m.progress with global := x'.startState } : Progress) = _
    rw [hx.startState]
    rfl
  · intro inbox index data hdata
    rw [loaded_message?, hnone, Option.or_none] at hdata ⊢
    exact hx.messages inbox index data hdata
  · intro hash content hcontent
    obtain ⟨e, he, hresolver⟩ := Option.map_eq_some_iff.1 h
    obtain ⟨e', he', hresolver'⟩ := Option.map_eq_some_iff.1 h'
    replace hcontent : r.resolve token hash = .ok content := hcontent
    show r'.resolve token' hash = .ok content
    rw [Registry.resolve_eq_under he, hresolver] at hcontent
    rw [Registry.resolve_eq_under he', hresolver']
    unfold Resolver.under Input.resolver Resolver.ofContents at hcontent ⊢
    cases hfound : x.preimages.lookup hash with
    | none => rw [hfound] at hcontent; cases hcontent
    | some found =>
      rw [hfound] at hcontent
      rw [hx.preimages hash found hfound]
      exact hcontent

end Machine

/-! ## Where a run ends -/

namespace Handle

open Machine Session

/-- What is told of the machine of a handle. -/
def told (h : Handle) : Result StepInfo := Instance.lift (h.live.map StepInfo.ofInstance)

/-- What is told of a copy with an input when a run on it is over. -/
def toldAfter (host : Host) (x : Input) (d : Deadline) (advance : Advance) (source : Handle) :
    Result StepInfo :=
  match prepare host source x with
  | (.error f, _) => .error f
  | (.ok h, host) =>
    match (advance host d h).1.result with
    | .error f => .error f
    | .ok () => (advance host d h).1.machine.told

/-- The outcome of a run is what is told of its end. -/
theorem runCopy_told (host : Host) (x : Input) (d : Deadline) (advance : Advance)
    (source : Handle) :
    (source.runCopy host x d advance).result =
      finalState (toldAfter host x d advance source) := by
  have htold : ∀ h : Handle, finalState h.told = Instance.lift h.outcome := by
    intro h
    unfold told outcome
    cases h.live <;> rfl
  unfold runCopy toldAfter prepare
  cases source.copy host with
  | error f => rfl
  | ok r =>
    dsimp only
    cases r.1.supply r.2 x with
    | error f => rfl
    | ok r =>
      unfold finish
      dsimp only
      cases (advance r.2 d r.1).1.result with
      | error f => rfl
      | ok u => exact (htold _).symm

/-- The call by which a machine goes on. -/
def Way.call : Way → Call
  | .inChunks chunk => .inChunks chunk
  | .atOnce => .step allSteps

theorem Way.advance_eq (way : Way) (horizon : Nat) (host : Host) (d : Deadline) (h : Handle) :
    way.advance horizon host d h = way.call.on horizon host d h := by
  cases way <;> rfl

section Runs

variable {host : Host} {x : Input} {d : Deadline} {way : Way} {horizon : Nat} {m : Machine}
  {isFrozen : Bool}

theorem toldAfter_plain (host : Host) (x : Input) (d : Deadline) (way : Way) (horizon : Nat)
    (m : Machine) (isFrozen : Bool) :
    let t := host.registry.lastToken + 1
    let r := way.call.on horizon (supplied host x) d (plain (m.loaded x t) false (some t))
    toldAfter host x d (way.advance horizon) (plain m isFrozen none) =
      match r.1.result with
      | .error f => .error f
      | .ok () => r.1.machine.told := by
  unfold toldAfter
  rw [prepare_plain]
  dsimp only
  rw [way.advance_eq]

/-- What is told of a run is told of a machine on the run with the input. -/
theorem toldAfter_ok {info : StepInfo}
    (h : toldAfter host x d (way.advance horizon) (plain m isFrozen none) = .ok info) :
    ∃ n a, way.call.Admits n ∧
      (m.loaded x (host.registry.lastToken + 1)).run (supplied host x).registry.resolve n =
        (.ok (), a) ∧
      info = .ofInstance (.plain a) := by
  rw [toldAfter_plain] at h
  obtain ⟨-, hmachine, -⟩ := call_plain way.call horizon (supplied host x) d
    (m.loaded x (host.registry.lastToken + 1)) (some (host.registry.lastToken + 1))
  obtain ⟨n, hcomes, -⟩ := course_isPart (supplied host x).registry.resolve horizon
    (m.loaded x (host.registry.lastToken + 1)) way.call (way.call.looks d)
  split at h
  · cases h
  · rw [hmachine] at h
    cases h
    exact ⟨n, _, hcomes.admits, hcomes.run, rfl⟩

/-- A run that is not interrupted tells of the machine with which the run with the input is over. -/
theorem toldAfter_of_isOver {n : Nat} {a : Machine} (hadmits : way.call.Admits n)
    (hrun : (m.loaded x (host.registry.lastToken + 1)).run (supplied host x).registry.resolve n =
      (.ok (), a))
    (hhalted : a.progress.status.isHalted = true) (hn : n ≤ horizon)
    (h : ((plain m isFrozen none).runCopy host x d (way.advance horizon)).deadline.isExpired =
      false) :
    toldAfter host x d (way.advance horizon) (plain m isFrozen none) =
      .ok (.ofInstance (.plain a)) := by
  rw [runCopy_plain] at h
  dsimp only at h
  rw [way.advance_eq] at h
  have hover : IsOver ((m.loaded x (host.registry.lastToken + 1)).run
      (supplied host x).registry.resolve n) := by
    rw [hrun]
    exact .inr hhalted
  have hcall : way.call ≠ .untilHostIo := by cases way <;> simp [Way.call]
  have hleaves := leaves_of_isOver hcall hadmits hn hover h
  rw [hrun] at hleaves
  obtain ⟨hresult, hrest⟩ := Prod.ext_iff.1 hleaves
  obtain ⟨hmachine, -⟩ := Prod.ext_iff.1 hrest
  dsimp only [leaves] at hresult hmachine
  rw [toldAfter_plain, hresult, hmachine]
  rfl

/-- A run that is settled with some input is settled in the same way with more of it. -/
theorem toldAfter_of_more {x' : Input} (hm : m.inbox = []) (hx : x.IsPartOf x')
    {info : StepInfo}
    (h : toldAfter host x d (way.advance horizon) (plain m isFrozen none) = .ok info)
    (hsettled : info.status = .finished ∨ info.status = .errored) :
    ∃ longest, ∀ horizon', longest ≤ horizon' → ∀ host' d',
      ((plain m isFrozen none).runCopy host' x' d' (way.advance horizon')).deadline.isExpired =
        false →
      toldAfter host' x' d' (way.advance horizon') (plain m isFrozen none) = .ok info := by
  obtain ⟨n, a, hadmits, hrun, rfl⟩ := toldAfter_ok h
  replace hsettled : a.progress.status = .finished ∨ a.progress.status = .errored := hsettled
  refine ⟨n, fun horizon' hn host' d' hd => ?_⟩
  have hcovers := loaded_covers hm hx (supplied_found host x) (supplied_found host' x')
  have hfound : a.progress.status ≠ .tooFar := by
    rcases hsettled with hs | hs <;> simp [hs]
  obtain ⟨a', hrun', ha⟩ := hcovers.run hrun hfound
  have hhalted : a'.progress.status.isHalted = true := by
    rw [ha.progress]
    rcases hsettled with hs | hs <;> simp [hs, Status.isHalted]
  rw [toldAfter_of_isOver hadmits hrun' hhalted hn hd]
  have hsame : StepInfo.ofInstance (.plain a') = .ofInstance (.plain a) := by
    have hhash : (Instance.plain a').hash = (Instance.plain a).hash := ha.hash
    simp only [StepInfo.ofInstance, Instance.plain_status, Instance.plain_steps, hhash,
      ha.progress]
    exact congrArg (fun p : Progress => StepInfo.mk _ _ p.global _) ha.progress
  rw [hsame]

end Runs

/-- For machines that were built from the image of a program, and runs on a copy of either of them,
interpreted or native: if a run with some input ends with a finished or an errored machine, then
every run of that kind with an input that holds the same, and maybe more, ends with the same outcome
and the same count, hash, global state and status, whatever all machines share, if anyone waits for
it long enough and nobody interrupts it. -/
theorem more_input_settles_alike {backend : Backend} (hb : backend.IsReference) {p : Program}
    {pair : MachinePair} (hpair : MachinePair.Built backend p pair) {x x' : Input}
    (hx : x.IsPartOf x') (way : Way) {source : Handle}
    (hsource : source = pair.zeroStep ∨ source = pair.hostIo) {host : Host} {d : Deadline}
    {horizon : Nat} {info : StepInfo}
    (hends : toldAfter host x d (way.advance horizon) source = .ok info)
    (hsettled : info.status = .finished ∨ info.status = .errored) :
    (source.runCopy host x d (way.advance horizon)).result =
        Instance.lift (outcomeOf info.status info.global) ∧
      ∃ longest, ∀ horizon', longest ≤ horizon' → ∀ host' d',
        (source.runCopy host' x' d' (way.advance horizon')).deadline.isExpired = false →
          toldAfter host' x' d' (way.advance horizon') source = .ok info ∧
          (source.runCopy host' x' d' (way.advance horizon')).result =
            (source.runCopy host x d (way.advance horizon)).result := by
  have hsourced : ∃ m : Machine, source = plain m true none ∧ m.inbox = [] := by
    obtain ⟨m, ha, -, rfl⟩ := hpair.pair_eq hb
    rcases hsource with rfl | rfl
    · exact ⟨.ofProgram p, rfl, rfl⟩
    · exact ⟨m, rfl, ha.given_eq.2.1⟩
  obtain ⟨m, rfl, hm⟩ := hsourced
  obtain ⟨longest, hlongest⟩ := toldAfter_of_more hm hx hends hsettled
  refine ⟨by rw [runCopy_told, hends]; rfl, longest, fun horizon' hle host' d' hd => ?_⟩
  have hsame := hlongest horizon' hle host' d' hd
  refine ⟨hsame, ?_⟩
  rw [runCopy_told, runCopy_told, hends, hsame]

/-- The input of the reader, with a message in front that it takes the place of, and with a message
and content that nobody asks for. -/
def fullerInput : Input :=
  { readerInput with
    id := 2
    sequencerMessages := ⟨0, [0x07]⟩ :: readerInput.sequencerMessages
    delayedMessages := [⟨0, [0x01]⟩]
    preimages := [(default, [0x02])] }

/-- The reader finishes alike with both. -/
theorem more_input_settles_alike_on_reader :
    readerInput.IsPartOf fullerInput ∧
      ∃ info horizon,
        toldAfter readerHost readerInput .never (Way.atOnce.advance 9) readerPair.zeroStep =
          .ok info ∧ info.status = .finished ∧
        toldAfter readerHost fullerInput .never (Way.atOnce.advance horizon) readerPair.zeroStep =
          .ok info := by
  have hpart : readerInput.IsPartOf fullerInput := by
    refine ⟨rfl, fun inbox index data h => ?_, fun hash content h => by cases h⟩
    cases inbox with
    | sequencer =>
      show Input.lastAt (_ :: readerInput.sequencerMessages) index = _
      rw [Input.lastAt_cons, show Input.lastAt readerInput.sequencerMessages index = some data from h]
      rfl
    | delayed => cases h
  obtain ⟨info, hinfo, hfinished⟩ : ∃ info,
      toldAfter readerHost readerInput .never (Way.atOnce.advance 9) readerPair.zeroStep =
        .ok info ∧ info.status = .finished := ⟨_, rfl, rfl⟩
  obtain ⟨-, longest, hlongest⟩ := more_input_settles_alike referenceBackend_isReference
    readerPair_built hpart .atOnce (.inl rfl) hinfo (.inl hfinished)
  obtain ⟨hsame, -⟩ := hlongest longest (Nat.le_refl _) readerHost .never rfl
  exact ⟨hpart, info, longest, hinfo, hfinished, hsame⟩

end Handle

end Rerun
