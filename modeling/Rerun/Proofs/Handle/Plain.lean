import Rerun.Handle.Run
import Rerun.Proofs.Machine.Ahead
import Rerun.Proofs.Machine.Rename

/-!
# Handles of the builtin engine

What the operations on a handle do if its machine comes from the builtin engine and nothing is made
to go wrong. A run on a copy whose deadline has not expired in the end gives the verdict on the
uninterrupted run (`runCopy_runNatively`, `runCopy_interpret`).
-/

namespace Rerun

/-! ## Inputs as machines get them -/

namespace Input

/-- The resolver for the contents of an input. -/
def resolver (x : Input) : Resolver := .ofContents x.preimages Handle.unsupplied

/-- The messages of an input by place; of two with one place the last counts. -/
def messages (x : Input) : List ((Inbox × UInt64) × Bytes) :=
  (x.sequencerMessages.map (fun m => ((Inbox.sequencer, m.index), m.data)) ++
    x.delayedMessages.map (fun m => ((Inbox.delayed, m.index), m.data))).reverse

end Input

namespace Machine

/-- The machine with an input and a token. -/
def loaded (m : Machine) (x : Input) (token : Nat) : Machine :=
  m.given x.startState (x.messages ++ m.inbox) token

theorem loaded_withToken (m : Machine) (x : Input) (t u : Nat) :
    (m.loaded x t).withToken u = m.loaded x u := rfl

/-- What a run says about the machine that it ended with. -/
def verdict (r : Result Unit × Machine) : Result GlobalState :=
  match r.1 with
  | .error f => .error f
  | .ok () => Instance.lift (Handle.outcomeOf r.2.progress.status r.2.progress.global)

theorem verdict_untoken {r r' : Result Unit × Machine} (h : r'.1.untoken = r.1.untoken)
    (hp : r'.2.progress = r.2.progress) :
    Result.untoken (verdict r') = Result.untoken (verdict r) := by
  unfold verdict
  rw [hp]
  cases hr : r.1 with
  | ok u =>
    rw [hr, Result.untoken_ok, Result.untoken_eq_ok] at h
    rw [h]
  | error f =>
    rw [hr] at h
    obtain ⟨g, hg, hgf⟩ := Result.untoken_eq_error h
    rw [hg]
    exact congrArg Except.error hgf

end Machine

namespace Instance

/-- A machine of the builtin engine that does nothing wrong. -/
def plain (m : Machine) : Instance := ⟨.builtin m, {}⟩

@[simp] theorem plain_status (m : Machine) : (plain m).status = m.progress.status := rfl

@[simp] theorem plain_steps (m : Machine) : (plain m).steps = m.progress.steps := rfl

theorem step_plain (host : Host) (count : Nat) (d : Deadline) (m : Machine) :
    (plain m).step host count d =
      (⟨(m.step host.registry.resolve count d).result,
        (m.step host.registry.resolve count d).deadline,
        plain (m.step host.registry.resolve count d).machine⟩, host) := rfl

theorem stepInChunks_plain_follows (host : Host) (chunk fuel : Nat) (d : Deadline) (m : Machine) :
    d.Follows ((plain m).stepInChunks chunk fuel host d).1.deadline := by
  induction fuel generalizing d m with
  | zero => exact .refl d
  | succ fuel ih =>
    have hstep := (Deadline.Follows.tick d).trans
      (Machine.step_follows host.registry.resolve chunk d.tick m)
    rw [stepInChunks, step_plain]
    split
    · exact .refl d
    · split
      · exact .tick d
      · dsimp only
        split
        · exact hstep
        · exact hstep.trans (ih _ _)

/-- The machine of the engine is run on its own. -/
theorem stepInChunks_plain_machine (host : Host) (chunk fuel : Nat) (d : Deadline) (m : Machine) :
    ((plain m).stepInChunks chunk fuel host d).2 = host ∧
      ∃ n m', ((plain m).stepInChunks chunk fuel host d).1.machine = plain m' ∧
        m.run host.registry.resolve n = (.ok (), m') := by
  induction fuel generalizing d m with
  | zero => exact ⟨rfl, 0, m, rfl, rfl⟩
  | succ fuel ih =>
    rw [stepInChunks, step_plain]
    split
    · exact ⟨rfl, 0, m, rfl, rfl⟩
    · split
      · exact ⟨rfl, 0, m, rfl, rfl⟩
      · obtain ⟨k, -, hk⟩ :=
          Machine.step_machine host.registry.resolve chunk d.tick m
        dsimp only
        split
        · exact ⟨rfl, k, _, rfl, hk⟩
        · obtain ⟨hhost, n, m', hm', hn⟩ := ih (m.step host.registry.resolve chunk d.tick).deadline
            (m.step host.registry.resolve chunk d.tick).machine
          exact ⟨hhost, k + n, m', hm', by rw [Machine.run_add k n hk, hn]⟩

/-- As long as the deadline has not expired in the end, it is as if there was none. If there is a
limit, chunks cannot run out before it expires. -/
theorem stepInChunks_plain {host : Host} {chunk fuel : Nat} (more : Nat) {d : Deadline}
    {m : Machine}
    (h : ((plain m).stepInChunks chunk fuel host d).1.deadline.isExpired = false)
    (hmore : more = 0 ∨ ∃ n, d.limit = some n ∧ n < d.spent + fuel) :
    ((plain m).stepInChunks chunk fuel host d).1.result =
        (m.runInChunks host.registry.resolve chunk (fuel + more)).1 ∧
      ((plain m).stepInChunks chunk fuel host d).1.machine =
        plain (m.runInChunks host.registry.resolve chunk (fuel + more)).2 := by
  induction fuel generalizing d m with
  | zero =>
    obtain rfl | ⟨n, hn, hlt⟩ := hmore
    · exact ⟨rfl, rfl⟩
    · have hd : d.isExpired = false := h
      simp only [Deadline.isExpired, hn, decide_eq_false_iff_not] at hd
      omega
  | succ fuel ih =>
    have hd := (stepInChunks_plain_follows host chunk (fuel + 1) d m).unexpired h
    rw [Nat.add_right_comm, Machine.runInChunks]
    rw [stepInChunks, step_plain, plain_status, hd] at h ⊢
    split
    · exact ⟨rfl, rfl⟩
    · rename_i hs
      rw [if_neg hs] at h
      simp only [Bool.false_eq_true, ↓reduceIte] at h ⊢
      have hstep := (Deadline.Follows.tick d).trans
        (Machine.step_follows host.registry.resolve chunk d.tick m)
      cases hr : (m.step host.registry.resolve chunk d.tick).result with
      | error f =>
        rw [hr] at h
        have he := Machine.step_eq_run h
        rw [hr] at he
        rw [← he]
        exact ⟨rfl, rfl⟩
      | ok u =>
        rw [hr] at h
        have he := Machine.step_eq_run
          ((stepInChunks_plain_follows host chunk fuel _ _).unexpired h)
        rw [hr] at he
        rw [← he]
        refine ih h (hmore.imp_right ?_)
        rintro ⟨n, hn, hlt⟩
        have htick : d.spent + 1 ≤ (m.step host.registry.resolve chunk d.tick).deadline.spent :=
          (Machine.step_follows _ chunk d.tick m).spent
        exact ⟨n, hstep.limit.trans hn, by omega⟩

end Instance

namespace Handle

/-- A handle of such a machine. -/
def plain (m : Machine) (isFrozen : Bool) (family : Option Nat) : Handle :=
  ⟨some (.plain m), isFrozen, family⟩

/-! ## Copies -/

theorem copy_plain (host : Host) (m : Machine) (isFrozen : Bool) :
    (plain m isFrozen none).copy host = .ok (plain m false none, host) := rfl

theorem copy_plain_some (host : Host) (m : Machine) (isFrozen : Bool) (t : Nat) :
    (plain m isFrozen (some t)).copy host =
      .ok (plain (m.withToken t) false (some t),
        { host with registry := host.registry.retain t }) := rfl

theorem addMessages_plain (inbox : Inbox) (m : Machine) (family : Option Nat)
    (ms : List Message) :
    (plain m false family).addMessages inbox ms =
      .ok (plain { m with
        inbox := (ms.map fun msg => ((inbox, msg.index), msg.data)).reverse ++ m.inbox }
          false family) := by
  induction ms generalizing m with
  | nil => rfl
  | cons msg ms ih =>
    have hmsg : (plain m false family).addMessage inbox msg =
        .ok (plain (m.addMessage inbox msg) false family) := rfl
    rw [addMessages, hmsg]
    dsimp only
    rw [ih, List.map_cons, List.reverse_cons, List.append_assoc]
    rfl

/-- An input goes to a handle without a family, which gets one by it. -/
theorem supply_plain (host : Host) (x : Input) (m : Machine) :
    (plain m false none).supply host x =
      .ok (plain (m.loaded x (host.registry.lastToken + 1)) false
          (some (host.registry.lastToken + 1)),
        { host with registry := (host.registry.register x.resolver).2 }) := by
  have hglobal : (plain m false none).setGlobal x.startState =
      .ok (plain (m.setGlobal x.startState) false none) := rfl
  unfold supply
  rw [hglobal]
  simp only [bind, Except.bind]
  rw [addMessages_plain]
  dsimp only
  rw [addMessages_plain]
  simp only [Machine.loaded, Input.messages, List.reverse_append, List.append_assoc]
  rfl

/-! ## Files -/

theorem save_plain (host : Host) (path : String) (m : Machine) (isFrozen : Bool)
    (family : Option Nat) :
    (plain m isFrozen family).save host path =
      match m.save host.files path with
      | .ok files => .ok { host with files }
      | .error e => fail e := by
  show Except.bind (Instance.lift (m.save host.files path)) _ = _
  cases m.save host.files path <;> rfl

theorem restore_plain (host : Host) (path : String) (m : Machine) (family : Option Nat) :
    (plain m false family).restore host path =
      match m.restore host.files path with
      | .ok m => .ok (plain m false family)
      | .error e => fail e := by
  show Except.bind (Except.bind (Instance.lift (m.restore host.files path)) _) _ = _
  cases m.restore host.files path <;> rfl

/-! ## Running -/

/-- How a call ends that was watched under a deadline. -/
def watchedResult (d : Deadline) (r : Result Unit) : Result Unit :=
  match r with
  | .error f => .error f
  | .ok () => if d.isExpired then fail .cancelled else .ok ()

theorem advance_plain (host : Host) (d : Deadline) (m : Machine) (family : Option Nat)
    (run : Deadline → Instance → Ran Instance × Host) :
    (plain m false family).advance host d run =
      (⟨watchedResult { d with spent := (run d.watched (.plain m)).1.deadline.spent }
          (run d.watched (.plain m)).1.result,
        { d with spent := (run d.watched (.plain m)).1.deadline.spent },
        ⟨some (run d.watched (.plain m)).1.machine, false, family⟩⟩,
        (run d.watched (.plain m)).2) := rfl

/-- A deadline that has not expired after a call was watched as it is, and the call ended as it did
under the deadline. -/
theorem advance_plain_unexpired {host : Host} {d : Deadline} {m : Machine} {family : Option Nat}
    {run : Deadline → Instance → Ran Instance × Host}
    (hf : ∀ d : Deadline, d.Follows (run d (.plain m)).1.deadline)
    (h : ((plain m false family).advance host d run).1.deadline.isExpired = false) :
    d.isExpired = false ∧ (run d (.plain m)).1.deadline.isExpired = false ∧
      ((plain m false family).advance host d run).1.result = (run d (.plain m)).1.result ∧
      ((plain m false family).advance host d run).1.machine =
        ⟨some (run d (.plain m)).1.machine, false, family⟩ := by
  rw [advance_plain] at h ⊢
  have hfollows : d.Follows { d with spent := (run d.watched (.plain m)).1.deadline.spent } := by
    refine ⟨rfl, ?_⟩
    have hs := (hf d.watched).spent
    have hw : d.watched.spent = d.spent := by
      unfold Deadline.watched
      split <;> rfl
    rwa [hw] at hs
  have hd := hfollows.unexpired h
  rw [Deadline.watched_eq hd] at h ⊢
  refine ⟨hd, ?_, ?_, rfl⟩
  · unfold Deadline.isExpired at h ⊢
    rw [(hf d).limit]
    exact h
  · dsimp only at h ⊢
    unfold watchedResult
    rw [h]
    cases (run d (.plain m)).1.result <;> rfl

/-- However it ends, a handle that takes some steps at a time runs its machine and nothing else. -/
theorem stepInChunks_plain_machine (host : Host) (horizon : Nat) (d : Deadline) (chunk : UInt64)
    (m : Machine) (family : Option Nat) :
    ((plain m false family).stepInChunks host horizon d chunk).2 = host ∧
      ∃ n m', ((plain m false family).stepInChunks host horizon d chunk).1.machine =
          plain m' false family ∧ m.run host.registry.resolve n = (.ok (), m') := by
  unfold stepInChunks
  split
  · exact ⟨rfl, 0, m, rfl, rfl⟩
  · obtain ⟨hhost, n, m', hm', hn⟩ := Instance.stepInChunks_plain_machine host
      (max chunk.toNat 1) (d.watched.remaining horizon + 1) d.watched m
    rw [advance_plain]
    dsimp only
    rw [hm']
    exact ⟨hhost, n, m', rfl, hn⟩

/-! ## Runs on copies -/

/-- The host of a run that got an input. -/
def supplied (host : Host) (x : Input) : Host :=
  { host with registry := (host.registry.register x.resolver).2 }

theorem runCopy_plain (host : Host) (x : Input) (d : Deadline) (advance : Advance) (m : Machine)
    (isFrozen : Bool) :
    let t := host.registry.lastToken + 1
    let r := advance (supplied host x) d (plain (m.loaded x t) false (some t))
    (plain m isFrozen none).runCopy host x d advance =
      ⟨match r.1.result with
        | .error f => .error f
        | .ok () => Instance.lift r.1.machine.outcome, r.1.deadline, (r.1.machine.drop r.2).2⟩ := by
  unfold runCopy
  rw [copy_plain]
  dsimp only
  rw [supply_plain]
  rfl

/-- What a run registers, it finds. -/
theorem supplied_found (host : Host) (x : Input) :
    (supplied host x).registry.found? (host.registry.lastToken + 1) = some x.resolver := by
  unfold Registry.found?
  show (Registry.entry? (host.registry.register x.resolver).2 _).map _ = _
  rw [Registry.entry?_register, if_pos rfl]
  rfl

/-- What is found under the token of an input is what the input holds. -/
theorem found_matches {r : Registry} {token : Nat} {x : Input}
    (ht : r.found? token = some x.resolver) (m : Machine) :
    Machine.Matches x.resolver.under r.resolve (m.loaded x 0).context token := by
  obtain ⟨e, he, hresolver⟩ := Option.map_eq_some_iff.1 ht
  intro hash
  rw [Registry.resolve_eq_under he, hresolver]
  exact x.resolver.under_untoken _ _ hash

/-- The verdict on a machine of a handle. -/
theorem outcome_plain (r : Result Unit) (m : Machine) (isFrozen : Bool) (family : Option Nat) :
    (match r with
      | .error f => .error f
      | .ok () => Instance.lift (plain m isFrozen family).outcome) = Machine.verdict (r, m) := rfl

/-- Steps of a handle under a deadline that does not expire are those of the run. -/
theorem step_plain {host : Host} {d : Deadline} {count : UInt64} {m : Machine}
    {family : Option Nat}
    (h : ((plain m false family).step host d count).1.deadline.isExpired = false) :
    ((plain m false family).step host d count).1.result =
        (m.run host.registry.resolve count.toNat).1 ∧
      ((plain m false family).step host d count).1.machine =
        plain (m.run host.registry.resolve count.toNat).2 false family := by
  obtain ⟨-, hrun, hresult, hmachine⟩ := advance_plain_unexpired
    (fun d => Machine.step_follows host.registry.resolve count.toNat d m) h
  have he := Machine.step_eq_run hrun
  unfold step
  rw [hresult, hmachine, ← he]
  exact ⟨rfl, rfl⟩

/-- So are those that it takes some at a time. -/
theorem stepInChunks_plain {host : Host} {horizon : Nat} (more : Nat) {d : Deadline}
    {chunk : UInt64} {m : Machine} {family : Option Nat}
    (h : ((plain m false family).stepInChunks host horizon d chunk).1.deadline.isExpired = false)
    (hmore : more = 0 ∨ d.limit ≠ none) :
    ((plain m false family).stepInChunks host horizon d chunk).1.result =
        (m.runInChunks host.registry.resolve (max chunk.toNat 1)
          (d.remaining horizon + 1 + more)).1 ∧
      ((plain m false family).stepInChunks host horizon d chunk).1.machine =
        plain (m.runInChunks host.registry.resolve (max chunk.toNat 1)
          (d.remaining horizon + 1 + more)).2 false family := by
  cases hd : d.isExpired with
  | true =>
    unfold stepInChunks at h
    rw [if_pos hd] at h
    obtain ⟨hf, -⟩ := advance_plain_unexpired (fun d => .refl d) h
    rw [hd] at hf
    cases hf
  | false =>
    unfold stepInChunks at h ⊢
    rw [if_neg (by simp [hd])] at h ⊢
    obtain ⟨-, hrun, hresult, hmachine⟩ := advance_plain_unexpired
      (fun d' => Instance.stepInChunks_plain_follows host _ _ d' m) h
    have hfuel : more = 0 ∨ ∃ n, d.limit = some n ∧ n < d.spent + (d.remaining horizon + 1) := by
      refine hmore.imp_right fun hl => ?_
      obtain ⟨n, hn⟩ := Option.ne_none_iff_exists'.1 hl
      refine ⟨n, hn, ?_⟩
      unfold Deadline.remaining
      rw [hn]
      dsimp only
      omega
    obtain ⟨h1, h2⟩ := Instance.stepInChunks_plain more hrun hfuel
    rw [hresult, hmachine, h1, h2]
    exact ⟨rfl, rfl⟩

/-- If the run is over within as many steps as anyone waits for, that is how they end. -/
theorem stepInChunks_of_isOver {host : Host} {horizon n : Nat} {d : Deadline} {chunk : UInt64}
    {m : Machine} {family : Option Nat}
    (h : ((plain m false family).stepInChunks host horizon d chunk).1.deadline.isExpired = false)
    (ho : Machine.IsOver (m.run host.registry.resolve n)) (hn : n ≤ horizon) :
    ((plain m false family).stepInChunks host horizon d chunk).1.result =
        (m.run host.registry.resolve n).1 ∧
      ((plain m false family).stepInChunks host horizon d chunk).1.machine =
        plain (m.run host.registry.resolve n).2 false family := by
  -- chunks cannot run out under a limit, so there may be more of them
  obtain ⟨more, hmore, hfuel⟩ : ∃ more, (more = 0 ∨ d.limit ≠ none) ∧
      n < d.remaining horizon + 1 + more := by
    cases hd : d.limit with
    | none =>
      refine ⟨0, .inl rfl, ?_⟩
      simp only [Deadline.remaining, hd]
      omega
    | some limit => exact ⟨n, .inr (by simp), by omega⟩
  have hplain := stepInChunks_plain more h hmore
  rwa [Machine.runInChunks_eq_run (by omega) hfuel ho] at hplain

/-- A native run that had the time for it ends like the run of all steps with the input. -/
theorem runCopy_runNatively {host : Host} {x : Input} {d : Deadline} {m : Machine} {isFrozen : Bool}
    (h : ((plain m isFrozen none).runCopy host x d runNatively).deadline.isExpired = false) :
    Result.untoken ((plain m isFrozen none).runCopy host x d runNatively).result =
      Result.untoken (Machine.verdict ((m.loaded x 0).run x.resolver.under allSteps.toNat)) := by
  rw [runCopy_plain] at h ⊢
  obtain ⟨hresult, hmachine⟩ := step_plain h
  obtain ⟨h1, h2⟩ := Machine.run_withToken (found_matches (supplied_found host x) m) allSteps.toNat
  rw [Machine.loaded_withToken] at h1 h2
  dsimp only [runNatively]
  rw [hresult, hmachine, outcome_plain]
  exact Machine.verdict_untoken h1 (by rw [h2]; rfl)

/-- An interpreted run that had the time for it ends like the run with the input that takes as many
steps at a time. -/
theorem runCopy_interpret {host : Host} {x : Input} {d : Deadline} {horizon : Nat} (more : Nat)
    {chunk : UInt64} {m : Machine} {isFrozen : Bool}
    (h : ((plain m isFrozen none).runCopy host x d
      (interpret horizon chunk)).deadline.isExpired = false)
    (hmore : more = 0 ∨ d.limit ≠ none) :
    Result.untoken ((plain m isFrozen none).runCopy host x d (interpret horizon chunk)).result =
      Result.untoken (Machine.verdict ((m.loaded x 0).runInChunks x.resolver.under
        (max chunk.toNat 1) (d.remaining horizon + 1 + more))) := by
  rw [runCopy_plain] at h ⊢
  obtain ⟨hresult, hmachine⟩ := stepInChunks_plain more h hmore
  obtain ⟨h1, h2⟩ := Machine.runInChunks_withToken (found_matches (supplied_found host x) m)
    (max chunk.toNat 1) (d.remaining horizon + 1 + more)
  rw [Machine.loaded_withToken] at h1 h2
  dsimp only [interpret]
  rw [hresult, hmachine, outcome_plain]
  exact Machine.verdict_untoken h1 (by rw [h2]; rfl)

end Handle

end Rerun
