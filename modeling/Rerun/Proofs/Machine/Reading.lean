import Rerun.Proofs.Machine.Token

/-!
# Messages in order

The place of the next message of an inbox is not counted by the machine but kept in its global
state, where both inboxes share it and one of them sets the other back. Along every execution the
two places say what was taken since its start: each message has the index that was due when it was
taken, and both places are what is due now (`Execution.inOrder`).
-/

namespace Rerun.Machine

/-! ## What a step takes -/

/-- A message that a machine took. -/
structure Taken where
  inbox : Inbox
  index : UInt64
  data : Bytes
  deriving DecidableEq

/-- The message that the next step takes, if it takes one. -/
def taken? (m : Machine) : Option Taken :=
  match m.current with
  | some (.readInbox inbox) =>
    let index := nextIndex m.progress.global inbox
    (m.message? inbox index).map (⟨inbox, index, ·⟩)
  | _ => none

/-- The machine behind the step that takes a message. -/
def take (m : Machine) (t : Taken) : Machine :=
  let p := m.progress
  { m with progress :=
    { p with
      global := takeMessage p.global p.acc t.inbox t.data
      pc := p.pc + 1
      steps := p.steps + 1 } }

variable {resolve : Resolve} {m m' : Machine} {t : Taken}

theorem taken?_eq_some : m.taken? = some t ↔
    m.current = some (.readInbox t.inbox) ∧ t.index = nextIndex m.progress.global t.inbox ∧
      m.message? t.inbox t.index = some t.data := by
  constructor
  · intro h
    unfold taken? at h
    split at h
    · rename_i inbox hc
      obtain ⟨data, hdata, rfl⟩ := Option.map_eq_some_iff.1 h
      exact ⟨hc, rfl, hdata⟩
    · cases h
  · rintro ⟨hc, hindex, hdata⟩
    unfold taken?
    rw [hc]
    dsimp only
    rw [← hindex, hdata]
    rfl

/-- A message that is there is taken, whoever answers for contents. -/
theorem next_of_taken (resolve : Resolve) (h : m.taken? = some t) :
    m.next resolve = .ok (m.take t) := by
  obtain ⟨hc, hindex, hdata⟩ := taken?_eq_some.1 h
  rw [hindex] at hdata
  simp only [next, hc, perform, hdata]
  rfl

/-- What an instruction does to the status, and to the places of the inboxes if it asks for no
message. -/
theorem perform_places {i : Instruction} {p : Progress} (h : m.perform resolve i = .ok (some p)) :
    (p.status = m.progress.status ∨ p.status = .finished ∨ p.status = .errored) ∧
      ((∃ inbox, i = .readInbox inbox) ∨
        p.global.blockHash = m.progress.global.blockHash ∧
          ∀ inbox, nextIndex p.global inbox = nextIndex m.progress.global inbox) := by
  cases i with
  | readInbox inbox =>
    simp only [perform] at h
    split at h <;> cases h
    exact ⟨.inl rfl, .inl ⟨inbox, rfl⟩⟩
  | readPreimage hash =>
    simp only [perform] at h
    cases hr : resolve m.context hash with
    | error f => rw [hr] at h; cases h
    | ok data =>
      rw [hr] at h
      cases h
      exact ⟨.inl rfl, .inr ⟨rfl, fun inbox => by cases inbox <;> rfl⟩⟩
  | jump target =>
    simp only [perform] at h
    split at h <;> cases h
    · exact ⟨.inl rfl, .inr ⟨rfl, fun _ => rfl⟩⟩
    · exact ⟨.inr (.inr rfl), .inr ⟨rfl, fun _ => rfl⟩⟩
  | mix value =>
    cases h
    exact ⟨.inl rfl, .inr ⟨rfl, fun _ => rfl⟩⟩
  | halt =>
    cases h
    exact ⟨.inr (.inl rfl), .inr ⟨rfl, fun _ => rfl⟩⟩
  | fail =>
    cases h
    exact ⟨.inr (.inr rfl), .inr ⟨rfl, fun _ => rfl⟩⟩

/-- Every other step leaves the place of both inboxes, and the hash of what was taken. -/
theorem next_of_not_taken (h : m.taken? = none) (hn : m.next resolve = .ok m') :
    m'.progress.global.blockHash = m.progress.global.blockHash ∧
      ∀ inbox, nextIndex m'.progress.global inbox = nextIndex m.progress.global inbox := by
  obtain ⟨hu, i, p, hc, hp, rfl⟩ | ⟨-, s, -, rfl⟩ := next_cases hn
  · obtain ⟨-, ⟨inbox, rfl⟩ | hplaces⟩ := perform_places hp
    · -- a read that is counted found its message
      simp only [haltsUncounted, hc, Option.isNone_eq_false_iff, Option.isSome_iff_exists] at hu
      obtain ⟨data, hdata⟩ := hu
      have htaken := taken?_eq_some (m := m) (t := ⟨inbox, _, data⟩).2 ⟨hc, rfl, hdata⟩
      rw [h] at htaken
      cases htaken
    · exact hplaces
  · exact ⟨rfl, fun _ => rfl⟩

/-- Whether the next step asks for a message that is not there. -/
def Misses (m : Machine) : Prop :=
  ∃ inbox, m.current = some (.readInbox inbox) ∧
    m.message? inbox (nextIndex m.progress.global inbox) = none

/-- No instruction makes a machine too far; `next` does it in place of one. -/
theorem perform_status {i : Instruction} {p : Progress} (h : m.perform resolve i = .ok (some p))
    (hs : m.progress.status ≠ .tooFar) : p.status ≠ .tooFar := by
  obtain ⟨hsame | hends | hends, -⟩ := perform_places h
  · rwa [hsame]
  · rw [hends]
    decide
  · rw [hends]
    decide

/-- A step makes a machine too far if and only if it asks for a message that is not there, and then
it does nothing else. -/
theorem next_tooFar_iff (hs : m.progress.status ≠ .tooFar) :
    m.next resolve = .ok m' ∧ m'.progress.status = .tooFar ↔
      m.Misses ∧ m' = m.setStatus .tooFar := by
  constructor
  · rintro ⟨hn, htoo⟩
    obtain ⟨-, i, p, -, hp, rfl⟩ | ⟨hu, s, -, rfl⟩ := next_cases hn
    · exact absurd (show p.status = .tooFar from htoo) (perform_status hp hs)
    · obtain rfl : s = .tooFar := htoo
      refine ⟨?_, rfl⟩
      unfold haltsUncounted at hu
      split at hu
      · -- behind the last instruction a machine finishes
        rename_i hc
        rw [next, hc] at hn
        cases congrArg Progress.status (congrArg Machine.progress (Except.ok.inj hn))
      · rename_i inbox hc
        exact ⟨inbox, hc, by simpa using hu⟩
      · cases hu
  · rintro ⟨⟨inbox, hc, hnone⟩, rfl⟩
    refine ⟨?_, rfl⟩
    simp only [next, hc, perform, hnone]
    rfl

/-! ## Places -/

/-- How many of some messages are from the sequencer. -/
def sequenced (ts : List Taken) : Nat := ts.countP (·.inbox = .sequencer)

/-- How many delayed messages stand behind the last one from the sequencer. -/
def delayedSince (ts : List Taken) : Nat := (ts.reverse.takeWhile (·.inbox = .delayed)).length

/-- The index that is due in an inbox for a machine that started from a state and took some messages
since. The delayed messages are counted anew behind every one from the sequencer. -/
def due (g : GlobalState) (ts : List Taken) : Inbox → Nat
  | .sequencer => g.batch.toNat + sequenced ts
  | .delayed => (if sequenced ts = 0 then g.posInBatch.toNat else 0) + delayedSince ts

/-- Whether there is an index behind that of every message. -/
def HasRoom (ts : List Taken) : Prop := ∀ t ∈ ts, t.index.toNat + 1 < UInt64.size

/-- Whether each of some messages has the index that was due in its inbox when it was taken. -/
def IsInOrder (g : GlobalState) (ts : List Taken) : Prop :=
  ∀ k t, ts[k]? = some t → t.index.toNat = due g (ts.take k) t.inbox

/-- Whether a state is not behind another one in the inboxes. -/
def NotBefore (g g' : GlobalState) : Prop :=
  g.batch < g'.batch ∨ g.batch = g'.batch ∧ g.posInBatch ≤ g'.posInBatch

section Places

variable {g g' : GlobalState} {ts : List Taken}

@[simp] theorem due_nil (g : GlobalState) (inbox : Inbox) :
    due g [] inbox = (nextIndex g inbox).toNat := by
  cases inbox <;> simp [due, sequenced, delayedSince, nextIndex]

theorem due_snoc_sequencer (ht : t.inbox = .sequencer) :
    due g (ts ++ [t]) .sequencer = due g ts .sequencer + 1 ∧ due g (ts ++ [t]) .delayed = 0 := by
  simp [due, sequenced, delayedSince, ht, Nat.add_assoc]

theorem due_snoc_delayed (ht : t.inbox = .delayed) :
    due g (ts ++ [t]) .sequencer = due g ts .sequencer ∧
      due g (ts ++ [t]) .delayed = due g ts .delayed + 1 := by
  simp [due, sequenced, delayedSince, ht, Nat.add_assoc]

theorem HasRoom.append {ts ts' : List Taken} :
    HasRoom (ts ++ ts') ↔ HasRoom ts ∧ HasRoom ts' := List.forall_mem_append

theorem IsInOrder.snoc (h : IsInOrder g ts) (ht : t.index.toNat = due g ts t.inbox) :
    IsInOrder g (ts ++ [t]) := by
  intro k u hu
  rw [List.getElem?_append] at hu
  split at hu
  · rename_i hk
    rw [List.take_append_of_le_length (Nat.le_of_lt hk)]
    exact h k u hu
  · rename_i hk
    obtain ⟨hk0, rfl⟩ : k - ts.length = 0 ∧ t = u := by
      simpa [List.getElem?_singleton] using hu
    rw [show k = ts.length by omega, List.take_left]
    exact ht

theorem NotBefore.refl (g : GlobalState) : NotBefore g g := .inr ⟨rfl, UInt64.le_refl _⟩

theorem NotBefore.trans {g'' : GlobalState} (h : NotBefore g g') (h' : NotBefore g' g'') :
    NotBefore g g'' := by
  unfold NotBefore at *
  simp only [UInt64.lt_iff_toNat_lt, UInt64.le_iff_toNat_le, ← UInt64.toNat_inj] at *
  omega

end Places

theorem toNat_succ {n : UInt64} (h : n.toNat + 1 < UInt64.size) : (n + 1).toNat = n.toNat + 1 := by
  rw [UInt64.toNat_add]
  exact Nat.mod_eq_of_lt h

/-- The state behind a message. -/
theorem nextIndex_take (h : m.taken? = some t) (hroom : t.index.toNat + 1 < UInt64.size)
    {g : GlobalState} {ts : List Taken}
    (hdue : ∀ inbox, (nextIndex m.progress.global inbox).toNat = due g ts inbox) (inbox : Inbox) :
    (nextIndex (m.take t).progress.global inbox).toNat = due g (ts ++ [t]) inbox := by
  obtain ⟨-, hindex, -⟩ := taken?_eq_some.1 h
  rw [hindex] at hroom
  have hold := hdue inbox
  cases ht : t.inbox with
  | sequencer =>
    rw [ht] at hroom
    cases inbox with
    | sequencer =>
      rw [(due_snoc_sequencer ht).1, ← hold]
      simp only [take, takeMessage, ht]
      exact toNat_succ hroom
    | delayed =>
      rw [(due_snoc_sequencer ht).2]
      simp only [take, takeMessage, ht]
      rfl
  | delayed =>
    rw [ht] at hroom
    cases inbox with
    | sequencer =>
      rw [(due_snoc_delayed ht).1, ← hold]
      simp only [take, takeMessage, ht]
      rfl
    | delayed =>
      rw [(due_snoc_delayed ht).2, ← hold]
      simp only [take, takeMessage, ht]
      exact toNat_succ hroom

theorem notBefore_take (h : m.taken? = some t) (hroom : t.index.toNat + 1 < UInt64.size) :
    NotBefore m.progress.global (m.take t).progress.global := by
  obtain ⟨-, hindex, -⟩ := taken?_eq_some.1 h
  rw [hindex] at hroom
  have hmore := toNat_succ hroom
  cases ht : t.inbox with
  | sequencer =>
    rw [ht] at hmore
    refine .inl (UInt64.lt_iff_toNat_lt.2 ?_)
    simp only [take, takeMessage, ht]
    exact Nat.lt_of_lt_of_eq (Nat.lt_succ_self _) hmore.symm
  | delayed =>
    rw [ht] at hmore
    refine .inr ⟨?_, UInt64.le_iff_toNat_le.2 ?_⟩
    · simp only [take, takeMessage, ht]
    · simp only [take, takeMessage, ht]
      exact Nat.le_of_lt (Nat.lt_of_lt_of_eq (Nat.lt_succ_self _) hmore.symm)

/-! ## Executions -/

/-- What a machine comes to step by step, and the messages that it takes on the way. Contents may be
answered otherwise at every step, and the machine may be given another token between two. -/
inductive Execution (m₀ : Machine) : List Taken → Machine → Prop where
  | start : Execution m₀ [] m₀
  | step {ts : List Taken} {m m' : Machine} (before : Execution m₀ ts m) (resolve : Resolve)
      (running : m.progress.status.isHalted = false) (next : m.next resolve = .ok m') :
      Execution m₀ (ts ++ m.taken?.toList) m'
  | rebind {ts : List Taken} {m : Machine} (before : Execution m₀ ts m) (token : Nat) :
      Execution m₀ ts (m.withToken token)

/-- The messages that a machine takes in a run of `n` steps. -/
def takenBy (resolve : Resolve) : Nat → Machine → List Taken
  | 0, _ => []
  | n + 1, m =>
    if m.progress.status.isHalted then []
    else
      match m.next resolve with
      | .error _ => []
      | .ok m' => m.taken?.toList ++ m'.takenBy resolve n

namespace Execution

variable {m₀ : Machine} {ts ts' : List Taken}

theorem trans (h : Execution m₀ ts m) (h' : Execution m ts' m') :
    Execution m₀ (ts ++ ts') m' := by
  induction h' with
  | start => rwa [List.append_nil]
  | step _ resolve running next ih =>
    rw [← List.append_assoc]
    exact .step ih resolve running next
  | rebind _ token ih => exact .rebind ih token

/-- A run is an execution, wherever it ends. -/
theorem of_run (resolve : Resolve) (n : Nat) (m : Machine) :
    Execution m (m.takenBy resolve n) (m.run resolve n).2 := by
  induction n generalizing m with
  | zero => exact .start
  | succ n ih =>
    rw [takenBy]
    cases hh : m.progress.status.isHalted with
    | true =>
      rw [run_of_halted hh, if_pos rfl]
      exact .start
    | false =>
      rw [if_neg (by simp)]
      cases hn : m.next resolve with
      | error f =>
        rw [run_succ_error hh hn]
        exact .start
      | ok m' =>
        rw [run_succ_ok hh hn]
        exact (Execution.start.step resolve hh hn).trans (ih m')

/-- Nothing is added to the messages that a machine was given. -/
theorem message?_eq (h : Execution m₀ ts m) : m.message? = m₀.message? := by
  induction h with
  | start => rfl
  | @step ts m m' _ resolve _ next ih =>
    funext inbox index
    rw [← ih, message?, (next_given next).2.1]
    rfl
  | rebind _ _ ih => exact ih

/-- Every message that was taken is one of those that the machine was given. -/
theorem data_eq (h : Execution m₀ ts m) (ht : t ∈ ts) :
    m₀.message? t.inbox t.index = some t.data := by
  induction h with
  | start => cases ht
  | @step ts m m' before resolve _ _ ih =>
    rcases List.mem_append.1 ht with ht | ht
    · exact ih ht
    · rw [← before.message?_eq]
      exact (taken?_eq_some.1 (Option.mem_toList.1 ht)).2.2
  | rebind _ _ ih => exact ih ht

/-- As long as there is room, messages are taken in order, and the machine stands where the next
ones are due. -/
theorem inOrder (h : Execution m₀ ts m) (hroom : HasRoom ts) :
    IsInOrder m₀.progress.global ts ∧
      ∀ inbox, (nextIndex m.progress.global inbox).toNat = due m₀.progress.global ts inbox := by
  induction h with
  | start => exact ⟨nofun, fun inbox => (due_nil _ inbox).symm⟩
  | @step ts m m' before resolve _ next ih =>
    obtain ⟨hbefore, hlast⟩ := HasRoom.append.1 hroom
    obtain ⟨horder, hdue⟩ := ih hbefore
    cases ht : m.taken? with
    | none =>
      rw [Option.toList_none, List.append_nil]
      refine ⟨horder, fun inbox => ?_⟩
      rw [(next_of_not_taken ht next).2]
      exact hdue inbox
    | some t =>
      have hroom : t.index.toNat + 1 < UInt64.size := hlast t (by simp [ht])
      rw [next_of_taken resolve ht] at next
      cases next
      refine ⟨horder.snoc ?_, nextIndex_take ht hroom hdue⟩
      rw [(taken?_eq_some.1 ht).2.1]
      exact hdue t.inbox
  | rebind _ _ ih => exact ih hroom

/-- As long as there is room, a machine does not go back in the inboxes. -/
theorem notBefore (h : Execution m₀ ts m) (hroom : HasRoom ts) :
    NotBefore m₀.progress.global m.progress.global := by
  induction h with
  | start => exact .refl _
  | @step ts m m' before resolve _ next ih =>
    obtain ⟨hbefore, hlast⟩ := HasRoom.append.1 hroom
    refine (ih hbefore).trans ?_
    cases ht : m.taken? with
    | none =>
      have hsame := (next_of_not_taken ht next).2
      refine .inr ⟨(hsame .sequencer).symm, ?_⟩
      exact UInt64.le_of_eq (hsame .delayed).symm
    | some t =>
      rw [next_of_taken resolve ht] at next
      cases next
      exact notBefore_take ht (hlast t (by simp [ht]))
  | rebind _ _ ih => exact ih hroom

end Execution

end Rerun.Machine
