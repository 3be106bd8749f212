import Rerun.Proofs.Handle.Splitting
import Rerun.Proofs.Machine.Covers

/-!
# Going on after a failed lookup

A step fails only because the content that it asks for cannot be found, and a step that fails
changes nothing. So a call that fails leaves the machine right in front of the lookup, with all
steps before it done (`Machine.StuckAt`); it fails there again as often as it is repeated; and with
a resolver that has the content, the machine goes on as if it had had that resolver from the start
(`failed_lookup_loses_nothing`).
-/

namespace Rerun

/-! ## Machines in front of a lookup -/

namespace Machine

variable {resolve : Resolve} {m m' : Machine} {k : Nat} {hash : Digest} {f : Failure}

/-- After `k` steps of its run a machine asks for content that cannot be found. -/
structure StuckAt (resolve : Resolve) (m : Machine) (k : Nat) (hash : Digest) (f : Failure)
    (m' : Machine) : Prop where
  run : m.run resolve k = (.ok (), m')
  running : m'.progress.status.isHalted = false
  asks : m'.current = some (.readPreimage hash)
  unfound : resolve m'.context hash = .error f

namespace StuckAt

theorem of_next (hrun : m.run resolve k = (.ok (), m'))
    (hrunning : m'.progress.status.isHalted = false) (hn : m'.next resolve = .error f) :
    ∃ hash, m.StuckAt resolve k hash f m' := by
  obtain ⟨hash, hasks, hunfound⟩ := next_error hn
  exact ⟨hash, hrun, hrunning, hasks, hunfound⟩

theorem next (h : m.StuckAt resolve k hash f m') : m'.next resolve = .error f := by
  unfold Machine.next
  rw [h.asks]
  simp only [perform, h.unfound]
  rfl

/-- More steps fail and leave the machine there. -/
theorem run_succ (h : m.StuckAt resolve k hash f m') (n : Nat) :
    m'.run resolve (n + 1) = (.error f, m') := run_succ_error h.running h.next n

/-- No steps without a failure lead away from there. -/
theorem stays (h : m.StuckAt resolve k hash f m') {n : Nat} {a : Machine}
    (ha : m'.run resolve n = (.ok (), a)) : a = m' := by
  cases n with
  | zero =>
    cases ha
    rfl
  | succ n =>
    rw [h.run_succ n] at ha
    cases ha

/-- Whoever finds under another token what was found so far comes there as well. -/
theorem run_rebound (h : m.StuckAt resolve k hash f m') {resolve' : Resolve} {token : Nat}
    (hmore : ∀ hash content,
      resolve m.context hash = .ok content → resolve' token hash = .ok content) :
    (m.withToken token).run resolve' k = (.ok (), m'.withToken token) := by
  have hcovers : m.Covers resolve resolve' (m.withToken token) :=
    ⟨rfl, rfl, fun _ _ _ hm => hm, hmore⟩
  have hstatus : m'.progress.status ≠ .tooFar := by
    rw [isHalted_eq_false_iff.1 h.running]
    nofun
  obtain ⟨n', hrun', hcovers'⟩ := hcovers.run h.run hstatus
  -- the run changes nothing but the progress, on which the two agree
  obtain ⟨hp, hi, -⟩ := run_given resolve k m
  obtain ⟨hp', hi', hc'⟩ := run_given resolve' k (m.withToken token)
  rw [h.run] at hp hi
  rw [hrun'] at hp' hi' hc' ⊢
  have hsame : n' = m'.withToken token := by
    obtain ⟨program, progress, inbox, context⟩ := n'
    have hprogress : progress = m'.progress := hcovers'.progress
    simp only [withToken] at hp' hi' hc' ⊢
    rw [hp', hi', hc', hprogress, hp, hi]
  rw [hsame]

/-- With the content the lookup succeeds, and is counted. -/
theorem next_found (h : m.StuckAt resolve k hash f m') {resolve' : Resolve} {token : Nat}
    {content : Bytes} (hfound : resolve' token hash = .ok content) :
    ∃ a, (m'.withToken token).run resolve' 1 = (.ok (), a) ∧
      a.progress.steps = m'.progress.steps + 1 := by
  have hcurrent : (m'.withToken token).current = some (.readPreimage hash) := h.asks
  have hcontent : resolve' (m'.withToken token).context hash = .ok content := hfound
  have hcounted : (m'.withToken token).haltsUncounted = false := by
    simp [haltsUncounted, hcurrent]
  have hnext : ∃ a, (m'.withToken token).next resolve' = .ok a := by
    unfold Machine.next
    simp only [hcurrent, perform, hcontent]
    exact ⟨_, rfl⟩
  obtain ⟨a, ha⟩ := hnext
  have hsteps := next_steps ha hcounted
  rw [withToken_progress] at hsteps
  refine ⟨a, ?_, hsteps⟩
  rw [run_succ_ok (by exact h.running) ha]
  rfl

end StuckAt

end Machine

namespace Handle

open Machine

variable {host : Host} {horizon : Nat} {d : Deadline} {m m' : Machine} {family : Option Nat}
  {f : Failure} {k : Nat} {hash : Digest} {call : Call}

/-! ## Calls that fail -/

/-- What the engine makes of a machine in a call fails in front of a lookup, before the call has
taken all its steps, unless it is taken for endless. -/
theorem course_stuckAt {resolve : Resolve} {looks : Option Nat}
    (h : (call.course resolve horizon m looks).1 = .error f) (he : f ≠ .endless) :
    ∃ k hash, m.StuckAt resolve k hash f (call.course resolve horizon m looks).2 ∧
      call ≠ .untilHostIo ∧ call.Admits (k + 1) := by
  have hrun : ∀ n, (m.run resolve n).1 = .error f →
      ∃ k hash, k < n ∧ m.StuckAt resolve k hash f (m.run resolve n).2 := by
    intro n hn
    obtain ⟨k, hk, hr, hrunning, hnext⟩ := run_error (Prod.ext hn rfl)
    obtain ⟨hash, hstuck⟩ := StuckAt.of_next hr hrunning hnext
    exact ⟨k, hash, hk, hstuck⟩
  cases call with
  | step count =>
    cases looks with
    | none =>
      obtain ⟨k, hash, hk, hstuck⟩ := hrun _ h
      exact ⟨k, hash, hstuck, by simp, hk⟩
    | some n =>
      obtain ⟨k, hash, hk, hstuck⟩ := hrun _ h
      exact ⟨k, hash, hstuck, by simp, Nat.le_trans hk (Nat.min_le_right ..)⟩
  | inChunks chunk =>
    cases looks with
    | none =>
      obtain ⟨k, hr, hfails⟩ := runInChunks_comes resolve (max chunk.toNat 1) (horizon + 1) m
      obtain ⟨hrunning, hnext⟩ := (hfails f h).resolve_left he
      obtain ⟨hash, hstuck⟩ := StuckAt.of_next hr hrunning hnext
      exact ⟨k, hash, hstuck, by simp, trivial⟩
    | some n =>
      obtain ⟨k, hash, -, hstuck⟩ := hrun _ h
      exact ⟨k, hash, hstuck, by simp, trivial⟩
  | untilHostIo =>
    cases looks with
    | none =>
      simp only [Call.course] at h
      split at h
      · cases h
      · exact absurd (Except.error.inj h).symm he
    | some n => cases h

/-- A call that fails for another reason than its deadline leaves the machine in front of a lookup.
-/
theorem call_stuckAt (h : (call.on horizon host d (plain m false family)).1.result = .error f)
    (hc : f ≠ .error .cancelled) (he : f ≠ .endless) :
    ∃ m' k hash,
      (call.on horizon host d (plain m false family)).1.machine = plain m' false family ∧
      (call.on horizon host d (plain m false family)).2 = host ∧
      m.StuckAt host.registry.resolve k hash f m' ∧
      call ≠ .untilHostIo ∧ call.Admits (k + 1) := by
  obtain ⟨hhost, hmachine, hresult⟩ := call_plain call horizon host d m family
  have hcourse : (call.course host.registry.resolve horizon m (call.looks d)).1 = .error f := by
    rw [h] at hresult
    unfold watchedResult at hresult
    split at hresult
    · rename_i g hg
      rw [hg, hresult]
    · split at hresult
      · exact absurd (Except.error.inj hresult) hc
      · cases hresult
  obtain ⟨k, hash, hstuck, hcall, hadmits⟩ := course_stuckAt hcourse he
  exact ⟨_, k, hash, hmachine, hhost, hstuck, hcall, hadmits⟩

/-- The same call does not lead away from there, and fails in the same way if nobody interrupts
it. -/
theorem call_fails_again (hstuck : m.StuckAt host.registry.resolve k hash f m')
    (hcall : call ≠ .untilHostIo) (hadmits : call.Admits (k + 1)) (horizon : Nat) (d : Deadline) :
    let r := call.on horizon host d (plain m' false family)
    r.1.machine = plain m' false family ∧ r.2 = host ∧
      (r.1.deadline.isExpired = false → r.1.result = .error f) := by
  obtain ⟨hhost, hmachine, -⟩ := call_plain call horizon host d m' family
  obtain ⟨j, hcomes, -⟩ := course_isPart host.registry.resolve horizon m' call (call.looks d)
  rw [hstuck.stays hcomes.run] at hmachine
  refine ⟨hmachine, hhost, fun hd => ?_⟩
  cases call with
  | step count =>
    have hpos : k + 1 ≤ count.toNat := hadmits
    obtain ⟨n, hn⟩ : ∃ n, count.toNat = n + 1 := ⟨count.toNat - 1, by omega⟩
    refine (step_plain hd).1.trans ?_
    rw [hn, hstuck.run_succ n]
  | inChunks chunk =>
    obtain ⟨n, hn⟩ : ∃ n, max chunk.toNat 1 = n + 1 := ⟨max chunk.toNat 1 - 1, by omega⟩
    refine (stepInChunks_plain 0 hd (.inl rfl)).1.trans ?_
    rw [Nat.add_zero, runInChunks, hn, hstuck.run_succ n]
    simp [isHalted_eq_false_iff.1 hstuck.running]
  | untilHostIo => exact absurd rfl hcall

/-! ## Another resolver -/

/-- The host after a handle got a resolver. -/
def rebound (host : Host) (family : Option Nat) (resolver : Resolver) : Host :=
  { host with registry := leave (host.registry.register resolver).2 family }

theorem setResolver_plain (host : Host) (resolver : Resolver) (m : Machine)
    (family : Option Nat) :
    (plain m false family).setResolver host resolver =
      .ok (host.registry.lastToken + 1,
        plain (m.withToken (host.registry.lastToken + 1)) false
          (some (host.registry.lastToken + 1)),
        rebound host family resolver) := rfl

/-- Under the new token is found what the resolver answers. -/
theorem resolve_rebound (hfamily : ∀ t, family = some t → t ≤ host.registry.lastToken)
    (resolver : Resolver) :
    (rebound host family resolver).registry.resolve (host.registry.lastToken + 1) =
      resolver.under (host.registry.lastToken + 1) := by
  have hentry : (rebound host family resolver).registry.entry? (host.registry.lastToken + 1) =
      some ⟨resolver, 1⟩ := by
    cases family with
    | none => simp [rebound, leave, Registry.entry?_register]
    | some t =>
      have hle := hfamily t rfl
      have hne : host.registry.lastToken + 1 ≠ t := by omega
      simp [rebound, leave, Registry.entry?_release, Registry.entry?_register, hne]
  funext hash
  exact Registry.resolve_eq_under hentry hash

/-- Two calls that come to their ends, one of them where the other one has come by and been cut,
leave the same. -/
theorem Call.Comes.leaves_eq {m' : Machine} (hcomes : call.Comes host.registry.resolve m m' k)
    (hcall : call ≠ .untilHostIo) (horizon horizon' : Nat) {d' : Deadline}
    (hd : ((call.rest k).on horizon host d (plain m' false family)).1.deadline.isExpired = false)
    (hend : ((call.rest k).on horizon host d (plain m' false family)).1.result ≠ .error .endless)
    (hd' : (call.on horizon' host d' (plain m false family)).1.deadline.isExpired = false)
    (hend' : (call.on horizon' host d' (plain m false family)).1.result ≠ .error .endless) :
    leaves ((call.rest k).on horizon host d (plain m' false family)) =
      leaves (call.on horizon' host d' (plain m false family)) := by
  obtain ⟨e, hends, hresult, hmachine⟩ := ends_of_unexpired hd hend
  obtain ⟨e', hends', hresult', hmachine'⟩ := ends_of_unexpired hd' hend'
  have hwhole := (hcomes.ends_rest e).1 hends
  have hsame : e = e' := by
    cases call with
    | step count => exact hwhole.trans hends'.symm
    | inChunks chunk =>
      obtain ⟨n, hover, rfl⟩ := hwhole
      obtain ⟨n', hover', rfl⟩ := hends'
      exact run_unique hover hover'
    | untilHostIo => exact absurd rfl hcall
  have hhost := (call_plain (call.rest k) horizon host d m' family).1
  have hhost' := (call_plain call horizon' host d' m family).1
  unfold leaves
  rw [hresult, hmachine, hhost, hresult', hmachine', hhost', hsame]

/-- Whether a call comes to an end: nobody interrupts it, and it does not go on forever. -/
def Finishes (r : Ran Handle × Host) : Prop :=
  r.1.deadline.isExpired = false ∧ r.1.result ≠ .error .endless

/-- For every machine of the builtin engine, whatever its state, its messages and the resolvers, if
the token of its family was given out, and for every call that fails for another reason than its
deadline: the machine is where `k` steps bring it, all of which were counted, before the call has
taken all its steps; it still runs there and asks for content whose lookup fails in this way, with
an error that names it or with a panic. The same call leads nowhere else and fails in the same way,
unless it is interrupted. A resolver that answers what was answered before is given to the machine
there as it could have been given to it before the call. From there, as many steps as are left, or
the rest of the chunks, leave what all of them would have left with that resolver; and the lookup
succeeds if the resolver has the content. -/
theorem failed_lookup_loses_nothing (call : Call) (horizon : Nat) {host : Host} {d : Deadline}
    {m : Machine} {family : Option Nat} {f : Failure}
    (hfamily : ∀ t, family = some t → t ≤ host.registry.lastToken)
    (hfails : (call.on horizon host d (plain m false family)).1.result = .error f)
    (hc : f ≠ .error .cancelled) (he : f ≠ .endless) :
    let failed := call.on horizon host d (plain m false family)
    ∃ m' k hash, failed.1.machine = plain m' false family ∧ failed.2 = host ∧
      m.StuckAt host.registry.resolve k hash f m' ∧
      m'.progress.steps = m.progress.steps + UInt64.ofNat k ∧
      ((∃ reason, f = .error (.preimageFailed hash m'.context reason)) ∨
        ∃ message, f = .panic (.text message)) ∧
      (∀ n, call = .step n → k < n.toNat) ∧
      (∀ horizon' d',
        let again := call.on horizon' host d' (plain m' false family)
        again.1.machine = plain m' false family ∧ again.2 = host ∧
          (again.1.deadline.isExpired = false → again.1.result = .error f)) ∧
      ∀ resolver : Resolver,
        (∀ hash content, host.registry.resolve m.context hash = .ok content →
          resolver hash = .found content) →
        ∃ token early late host',
          (plain m false family).setResolver host resolver = .ok (token, early, host') ∧
          (plain m' false family).setResolver host resolver = .ok (token, late, host') ∧
          (∀ n : UInt64, k ≤ n.toNat → ∀ d₁ d₂,
            let rest := late.step host' d₁ (UInt64.ofNat (n.toNat - k))
            let whole := early.step host' d₂ n
            rest.1.deadline.isExpired = false → whole.1.deadline.isExpired = false →
              leaves rest = leaves whole) ∧
          (∀ chunk horizon₁ horizon₂ d₁ d₂,
            let rest := late.stepInChunks host' horizon₁ d₁ chunk
            let whole := early.stepInChunks host' horizon₂ d₂ chunk
            Finishes rest → Finishes whole → leaves rest = leaves whole) ∧
          (∀ content, resolver hash = .found content → ∀ d₁,
            let next := late.step host' d₁ 1
            next.1.deadline.isExpired = false → next.1.result = .ok () ∧
              next.1.machine.machine.map Instance.steps = some (m'.progress.steps + 1)) := by
  intro failed
  obtain ⟨m', k, hash, hmachine, hhost, hstuck, hcall, hadmits⟩ := call_stuckAt hfails hc he
  refine ⟨m', k, hash, hmachine, hhost, hstuck, run_steps_eq hstuck.run hstuck.running,
    Registry.resolve_error hstuck.unfound, ?_,
    fun horizon' d' => call_fails_again hstuck hcall hadmits horizon' d', ?_⟩
  · rintro n rfl
    exact hadmits
  · intro resolver hmore
    have hresolve := resolve_rebound hfamily resolver
    have hrun : (m.withToken (host.registry.lastToken + 1)).run
        (rebound host family resolver).registry.resolve k =
          (.ok (), m'.withToken (host.registry.lastToken + 1)) := by
      refine hstuck.run_rebound fun hash content hfound => ?_
      rw [hresolve, Resolver.under, hmore hash content hfound]
    refine ⟨_, _, _, _, setResolver_plain host resolver m family,
      setResolver_plain host resolver m' family, ?_, ?_, ?_⟩
    · intro n hn d₁ d₂ rest whole hrest hwhole
      have hcomes : (Call.step n).Comes (rebound host family resolver).registry.resolve _ _ k :=
        ⟨hrun, hn, by simp⟩
      exact hcomes.leaves_eq (by simp) 0 0 hrest (step_ne_endless hrest) hwhole
        (step_ne_endless hwhole)
    · intro chunk horizon₁ horizon₂ d₁ d₂ rest whole hrest hwhole
      have hcomes : (Call.inChunks chunk).Comes
          (rebound host family resolver).registry.resolve _ _ k := ⟨hrun, trivial, by simp⟩
      exact hcomes.leaves_eq (by simp) horizon₁ horizon₂ hrest.1 hrest.2 hwhole.1 hwhole.2
    · intro content hcontent d₁ next hnext
      have hfound : (rebound host family resolver).registry.resolve
          (host.registry.lastToken + 1) hash = .ok content := by
        rw [hresolve, Resolver.under, hcontent]
      obtain ⟨a, ha, hsteps⟩ := hstuck.next_found hfound
      obtain ⟨hresult, hmachine'⟩ := step_plain hnext
      rw [show (1 : UInt64).toNat = 1 from rfl, ha] at hresult hmachine'
      refine ⟨hresult, ?_⟩
      rw [hmachine', ← hsteps]
      rfl

/-- A machine reads content that its resolver has, and fails at content that it has not. With a
resolver that has both, what is left of its steps leaves what all of them would have left. -/
theorem failed_lookup_loses_nothing_behind_another :
    let other : Digest := ⟨List.replicate 32 1, by simp⟩
    let resolver : Resolver := fun hash => if hash = default then .found [] else .refused "gone"
    let host : Host := ⟨⟨[], []⟩, (Registry.empty.register resolver).2, none⟩
    let m := (ofProgram ⟨[.readPreimage default, .readPreimage other, .halt]⟩).withToken 1
    let failed := (plain m false (some 1)).step host .never 5
    failed.1.result = fail (.preimageFailed other 1 "gone") ∧
      ∃ m' token early late host', failed.1.machine = plain m' false (some 1) ∧
        m'.progress.steps = 1 ∧
        (plain m false (some 1)).setResolver host (.always []) = .ok (token, early, host') ∧
        (plain m' false (some 1)).setResolver host (.always []) = .ok (token, late, host') ∧
        leaves (late.step host' .never 4) = leaves (early.step host' .never 5) := by
  intro other resolver host m failed
  have hfails : failed.1.result = fail (.preimageFailed other 1 "gone") := rfl
  have hfamily : ∀ t, some 1 = some t → t ≤ host.registry.lastToken := by
    rintro t ⟨⟩
    exact Nat.le_refl 1
  have hmore : ∀ hash content, host.registry.resolve m.context hash = .ok content →
      Resolver.always [] hash = .found content := by
    intro hash content h
    have hresolve : host.registry.resolve m.context hash = resolver.under 1 hash := rfl
    rw [hresolve] at h
    unfold Resolver.under resolver at h
    split at h
    · rename_i found hfound
      split at hfound <;> cases hfound
      cases h
      rfl
    · cases h
    · cases h
  obtain ⟨m', k, hash, hmachine, -, -, hsteps, -, hlt, -, hrebound⟩ :=
    failed_lookup_loses_nothing (.step 5) 0 hfamily hfails (by nofun) (by nofun)
  obtain ⟨token, early, late, host', hearly, hlate, hrest, -⟩ := hrebound (.always []) hmore
  have hsame : plain (m.run host.registry.resolve 5).2 false (some 1) =
    plain m' false (some 1) := hmachine
  have hone : m'.progress.steps = 1 := by
    cases hsame
    rfl
  obtain rfl : k = 1 := by
    have hk : k < UInt64.size := Nat.lt_trans (hlt 5 rfl) (by decide)
    have hcount : m'.progress.steps = UInt64.ofNat k := hsteps.trans (UInt64.zero_add _)
    rw [← UInt64.toNat_ofNat_of_lt' hk, ← hcount, hone]
    rfl
  refine ⟨hfails, m', token, early, late, host', hmachine, hone, hearly, hlate, ?_⟩
  cases hearly
  cases hlate
  exact hrest 5 (by decide) .never .never rfl rfl

end Handle

end Rerun
