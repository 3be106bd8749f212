import Rerun.Proofs.MachinePair
import Rerun.Session.Basic

/-!
# What a session remembers

The answers of a session come from a cursor that other questions have moved. Whether they tell where
it was before hangs on the halts that are not counted as a step: the machine is then found at the
same count twice, once running and once halted. Everywhere else a session answers as if it was asked
for the first time (`answers_forget_iff`).
-/

namespace Rerun

namespace Machine

variable {resolve : Resolve}

/-! ## Positions -/

/-- Whether the machine runs as far as a position and then halts without another step. -/
def HaltsUncountedAt (resolve : Resolve) (position : Nat) (m : Machine) : Prop :=
  (m.run resolve position).1 = .ok () ∧
    (m.run resolve position).2.progress.status.isHalted = false ∧
    (m.run resolve position).2.haltsUncounted = true

/-- Such a machine is found running at the position and halted right behind it, at one count. -/
theorem HaltsUncountedAt.halted {m₀ : Machine} (h0 : m₀.progress.steps = 0) {position : Nat}
    (hp : position < UInt64.size) (h : m₀.HaltsUncountedAt resolve position) :
    ∃ m s, m₀.run resolve position = (.ok (), m) ∧ m.progress.status = .running ∧
      m.progress.steps.toNat = position ∧ s.isHalted = true ∧
      m₀.run resolve (position + 1) = (.ok (), m.setStatus s) := by
  obtain ⟨hok, hrunning, hhalts⟩ := h
  have hrun : m₀.run resolve position = (.ok (), (m₀.run resolve position).2) :=
    Prod.ext hok rfl
  obtain ⟨s, hs, hnext⟩ := next_uncounted resolve hhalts
  refine ⟨(m₀.run resolve position).2, s, hrun, isHalted_eq_false_iff.1 hrunning,
    (reached_of_run h0 hp hrun).2 hrunning, hs, ?_⟩
  rw [run_add position 1 hrun, run_succ_ok hrunning hnext]
  rfl

/-- Takes the steps that a machine lacks to a position. -/
def advanceTo (resolve : Resolve) (position : UInt64) (m : Machine) : Result Unit × Machine :=
  if m.progress.steps < position ∧ m.progress.status = .running then
    m.run resolve (position - m.progress.steps).toNat
  else (.ok (), m)

theorem toNat_sub {a b : UInt64} (h : a < b) : a.toNat + (b - a).toNat = b.toNat := by
  have hlt := UInt64.lt_iff_toNat_lt.1 h
  rw [UInt64.toNat_sub_of_le _ _ (UInt64.le_of_lt h)]
  omega

/-- From the beginning a position is where the run comes to. -/
theorem advanceTo_of_fresh {m : Machine} (h0 : m.progress.steps = 0) (position : UInt64) :
    m.advanceTo resolve position = m.run resolve position.toNat := by
  unfold advanceTo
  by_cases hp : m.progress.steps < position
  · have hsub := toNat_sub hp
    rw [h0] at hsub hp ⊢
    cases hh : m.progress.status.isHalted with
    | true =>
      rw [if_neg (by rintro ⟨-, hr⟩; rw [hr] at hh; cases hh), run_of_halted hh]
    | false =>
      rw [if_pos ⟨hp, isHalted_eq_false_iff.1 hh⟩, ← hsub]
      simp
  · have hzero : position = 0 := by
      rw [h0] at hp
      exact UInt64.le_zero_iff.1 (UInt64.not_lt.1 hp)
    rw [if_neg (fun h => hp h.1), hzero]
    rfl

/-- From wherever the machine came to, a position that is not behind it is where the run comes to,
unless the machine halted there without a step. -/
theorem Reached.advanceTo_eq {m₀ m : Machine} (h : Reached resolve m₀ m) {position : UInt64}
    (hle : m.progress.steps ≤ position) :
    m.advanceTo resolve position = m₀.run resolve position.toNat ∨
      HaltsUncountedAt resolve position.toNat m₀ ∧
        m.advanceTo resolve position = m₀.run resolve (position.toNat + 1) := by
  have hle' := UInt64.le_iff_toNat_le.1 hle
  unfold advanceTo
  cases h with
  | counted run =>
    left
    by_cases hgo : m.progress.steps < position ∧ m.progress.status = .running
    · rw [if_pos hgo, ← toNat_sub hgo.1, run_add _ _ run]
    · rw [if_neg hgo]
      by_cases hlt : m.progress.steps < position
      · have hh : m.progress.status.isHalted = true := by
          rw [← Bool.not_eq_false, isHalted_eq_false_iff]
          exact fun hr => hgo ⟨hlt, hr⟩
        rw [← toNat_sub hlt, run_add _ _ run, run_of_halted hh]
      · have heq : m.progress.steps = position :=
          UInt64.le_antisymm hle (UInt64.not_lt.1 hlt)
        rw [← heq, run]
  | uncounted m' run running halts next =>
    obtain ⟨hhalted, -⟩ := Reached.halted_of_uncounted halts next
    have hend : m₀.run resolve (m.progress.steps.toNat + 1) = (.ok (), m) := by
      rw [run_add _ 1 run, run_succ_ok running next]
      rfl
    rw [if_neg (by rintro ⟨-, hr⟩; rw [hr] at hhalted; cases hhalted)]
    obtain hlt | heq := Nat.lt_or_eq_of_le hle'
    · left
      have hadd : m.progress.steps.toNat + 1 + (position.toNat - (m.progress.steps.toNat + 1)) =
          position.toNat := by omega
      rw [← hadd, run_add _ _ hend, run_of_halted hhalted]
    · right
      rw [← heq]
      refine ⟨⟨?_, ?_, ?_⟩, hend.symm⟩
      · rw [run]
      · rw [run]
        exact running
      · rw [run]
        exact halts

/-- Moving to a position keeps to where the machine can be. -/
theorem Reached.advanceTo {m₀ m : Machine} (h0 : m₀.progress.steps = 0)
    (h : Reached resolve m₀ m) (position : UInt64) :
    Reached resolve m₀ (m.advanceTo resolve position).2 := by
  unfold Machine.advanceTo
  split
  · rename_i hgo
    cases h with
    | counted run =>
      obtain ⟨k, hk, hrun⟩ := exists_run_eq_ok resolve (position - m.progress.steps).toNat m
      have hsum : m₀.run resolve (m.progress.steps.toNat + k) =
          (.ok (), (m.run resolve (position - m.progress.steps).toNat).2) := by
        rw [run_add _ k run, hrun]
      have hlt := toNat_sub hgo.1
      have hword := position.toNat_lt_size
      exact (reached_of_run h0 (by omega) hsum).1
    | uncounted m' run running halts next =>
      obtain ⟨hhalted, -⟩ := Reached.halted_of_uncounted halts next
      rw [hgo.2] at hhalted
      cases hhalted
  · exact h

/-- A run that ends before the count is full leads to no other places. -/
theorem Reached.run {m₀ m m' : Machine} (h0 : m₀.progress.steps = 0) {k n : Nat}
    (hk : k < UInt64.size) (he : m₀.EndsIn resolve k) (h : Reached resolve m₀ m)
    (hr : m.run resolve n = (.ok (), m')) : Reached resolve m₀ m' := by
  cases h with
  | counted run =>
    exact reached_of_endsIn h0 hk he ((run_add _ n run).trans hr)
  | uncounted m'' run running halts next =>
    obtain ⟨hhalted, -⟩ := Reached.halted_of_uncounted halts next
    rw [run_of_halted hhalted] at hr
    obtain rfl : m = m' := congrArg Prod.snd hr
    exact .uncounted m'' run running halts next

theorem Reached.context_eq {m₀ m : Machine} (h : Reached resolve m₀ m) :
    m.context = m₀.context := by
  cases h with
  | counted run =>
    have hg := (run_given resolve m.progress.steps.toNat m₀).2.2
    rwa [run] at hg
  | uncounted m' run running halts next =>
    have hg := (run_given resolve m.progress.steps.toNat m₀).2.2
    rw [run] at hg
    exact (next_given next).2.2.trans hg

end Machine

namespace Session

open Machine Handle

/-! ## Opening -/

/-- Opens a session over a copy of a machine. -/
def opened (host : Host) (root : Digest) (source : Handle) (x : Input) (stepChunk : UInt64) :
    Result Session × Host :=
  match prepare host source x with
  | (.error f, host) => (.error f, host)
  | (.ok h, host) => ofPrepared host root h stepChunk

/-- Where a session over a machine with an input can be: its cursor is on the run of the machine
that it keeps, and both of them own the token. -/
structure Serves (x : Input) (m₀ : Machine) (token : Nat) (s : Session) (host : Host) : Prop where
  prepared : s.prepared = .plain m₀ true (some token)
  cursor : ∃ m, s.cursor = .plain m false (some token) ∧ Reached x.resolver.under m₀ m
  context : m₀.context = token
  steps : m₀.progress.steps = 0
  owned : host.registry.entry? token = some ⟨x.resolver, 2⟩
  isOpen : s.isCancelled = false

theorem reached_here {resolve : Resolve} {m₀ : Machine} (h0 : m₀.progress.steps = 0) :
    Reached resolve m₀ m₀ := by
  refine .counted ?_
  rw [h0]
  rfl

/-- A session can always be opened, and begins with its cursor at the first step. -/
theorem opened_plain (host : Host) (root : Digest) (x : Input) (stepChunk : UInt64) {m : Machine}
    (h0 : m.progress.steps = 0) (isFrozen : Bool) :
    ∃ s host', opened host root (.plain m isFrozen none) x stepChunk = (.ok s, host') ∧
      s.cursor = .plain (m.loaded x (host.registry.lastToken + 1)) false
        (some (host.registry.lastToken + 1)) ∧
      Serves x (m.loaded x (host.registry.lastToken + 1)) (host.registry.lastToken + 1) s host' := by
  refine ⟨⟨root, .plain (m.loaded x (host.registry.lastToken + 1)) true
      (some (host.registry.lastToken + 1)),
    .plain (m.loaded x (host.registry.lastToken + 1)) false (some (host.registry.lastToken + 1)),
    max stepChunk 1, false⟩,
    { supplied host x with
      registry := (supplied host x).registry.retain (host.registry.lastToken + 1) },
    ?_, rfl, rfl, ⟨_, rfl, reached_here h0⟩, rfl, h0, ?_, rfl⟩
  · unfold opened prepare
    rw [copy_plain]
    dsimp only
    rw [supply_plain]
    rfl
  · show Registry.entry? ((host.registry.register x.resolver).2.retain _) _ = _
    rw [Registry.entry?_retain, if_pos rfl, Registry.entry?_register, if_pos rfl]
    rfl

/-! ## Answering -/

/-- What a run comes to, as the reply to a question. -/
def replyOf (f : Instance → Reply) (r : Result Unit × Machine) : Result Reply :=
  match r.1 with
  | .error e => .error e
  | .ok () => .ok (f (.plain r.2))

/-- A question about a position, and how it is answered from the machine there. -/
inductive Asks (position : UInt64) : Ask → (Instance → Reply) → Prop where
  | stepAt : Asks position (.stepAt position) fun i => .info (.ofInstance i)
  | proofAt : Asks position (.proofAt position) fun i => .proof i.proof

variable {x : Input} {m₀ : Machine} {token : Nat} {s : Session} {host : Host}

/-- The job of a session that stays open is the answer. -/
theorem job_of_open {horizon : Nat} {d : Deadline} {ask : Ask} (h : s.isCancelled = false)
    (ha : (s.answer host horizon d ask).session.isCancelled = false) :
    s.job host horizon d ask = s.answer host horizon d ask := by
  simp [job, h, ha]

namespace Serves

theorem resolve_eq (h : Serves x m₀ token s host) :
    host.registry.resolve token = x.resolver.under token := by
  funext hash
  exact Registry.resolve_eq_under h.owned hash

/-- The session finds for a machine on the run what its input holds. -/
theorem run_eq (h : Serves x m₀ token s host) {m : Machine}
    (hm : Reached x.resolver.under m₀ m) (n : Nat) :
    m.run host.registry.resolve n = m.run x.resolver.under n := by
  have hc : m.context = token := hm.context_eq.trans h.context
  refine run_congr ?_ n
  rw [hc]
  exact h.resolve_eq

/-- A cursor that has moved along the run serves as well. -/
theorem moved (h : Serves x m₀ token s host) {m : Machine} (hm : Reached x.resolver.under m₀ m) :
    Serves x m₀ token { s with cursor := .plain m false (some token) } host :=
  ⟨h.prepared, ⟨m, rfl, hm⟩, h.context, h.steps, h.owned, h.isOpen⟩

/-- The cursor that a question about a position starts from: a fresh one takes the place of one that
is past the position. -/
theorem rewind_eq (h : Serves x m₀ token s host) {m : Machine}
    (hc : s.cursor = .plain m false (some token)) (hm : Reached x.resolver.under m₀ m)
    (position : UInt64) :
    ∃ m' host', s.rewind host position =
        .ok ({ s with cursor := .plain m' false (some token) }, host') ∧
      Reached x.resolver.under m₀ m' ∧ m'.progress.steps ≤ position ∧
      (m.progress.steps ≤ position → m' = m) ∧
      Serves x m₀ token { s with cursor := .plain m' false (some token) } host' := by
  have hrewind : s.rewind host position =
      if position < m.progress.steps then s.restart host else .ok (s, host) := by
    unfold rewind
    rw [hc]
    rfl
  by_cases hlt : position < m.progress.steps
  · have hself : m₀.withToken token = m₀ := by
      rw [← h.context]
      rfl
    have hcopy : s.prepared.copy host = .ok (.plain m₀ false (some token),
        { host with registry := host.registry.retain token }) := by
      rw [h.prepared, copy_plain_some, hself]
    refine ⟨m₀, { host with registry := (host.registry.retain token).release token }, ?_,
      reached_here h.steps, ?_, ?_, ?_⟩
    · rw [hrewind, if_pos hlt]
      unfold restart
      rw [hcopy, hc]
      rfl
    · rw [h.steps]
      exact UInt64.zero_le
    · intro hle
      exact absurd hlt (UInt64.not_lt.2 hle)
    · refine ⟨h.prepared, ⟨m₀, rfl, reached_here h.steps⟩, h.context, h.steps, ?_, h.isOpen⟩
      show Registry.entry? ((host.registry.retain token).release token) token = _
      rw [Registry.entry?_release, if_pos rfl, Registry.entry?_retain, if_pos rfl, h.owned]
      rfl
  · refine ⟨m, host, ?_, hm, UInt64.not_lt.1 hlt, fun _ => rfl, h.moved hm⟩
    rw [hrewind, if_neg hlt, ← hc]

/-- Moving the cursor to a position. -/
theorem seek_eq (h : Serves x m₀ token s host) {m : Machine}
    (hc : s.cursor = .plain m false (some token)) (hm : Reached x.resolver.under m₀ m)
    (position : UInt64) :
    ∃ m' host', Reached x.resolver.under m₀ m' ∧ m'.progress.steps ≤ position ∧
      (m.progress.steps ≤ position → m' = m) ∧
      s.seek host .never position =
        ⟨(m'.advanceTo x.resolver.under position).1,
          { s with
            cursor := .plain (m'.advanceTo x.resolver.under position).2 false (some token) },
          host'⟩ ∧
      Serves x m₀ token { s with
        cursor := .plain (m'.advanceTo x.resolver.under position).2 false (some token) } host' := by
  obtain ⟨m', host', hr, hm', hle, hsame, hs⟩ := h.rewind_eq hc hm position
  refine ⟨m', host', hm', hle, hsame, ?_, hs.moved (hm'.advanceTo h.steps position)⟩
  unfold seek Machine.advanceTo
  rw [hr]
  show (if m'.progress.steps < position ∧ m'.progress.status = .running then _ else _) = _
  split
  · obtain ⟨hresult, hmachine⟩ := Handle.step_plain
      (show ((plain m' false (some token)).step host' .never
        (position - m'.progress.steps)).1.deadline.isExpired = false from rfl)
    simp only [goOn, Instance.plain_steps]
    rw [hresult, hmachine, hs.run_eq hm']
    rfl
  · rfl

/-- A question about a position is answered from where the run comes to, unless the machine halts
there without a step and the cursor has seen it. -/
theorem job_eq (h : Serves x m₀ token s host) {m : Machine}
    (hc : s.cursor = .plain m false (some token)) (hm : Reached x.resolver.under m₀ m)
    (horizon : Nat) {position : UInt64} {ask : Ask} {f : Instance → Reply}
    (ha : Asks position ask f) :
    ∃ m', Reached x.resolver.under m₀ m' ∧ m'.progress.steps ≤ position ∧
      (m.progress.steps ≤ position → m' = m) ∧
      (s.job host horizon .never ask).result =
        replyOf f (m'.advanceTo x.resolver.under position) ∧
      Serves x m₀ token (s.job host horizon .never ask).session
        (s.job host horizon .never ask).host := by
  obtain ⟨m', host', hm', hle, hsame, hseek, hs⟩ := h.seek_eq hc hm position
  have hanswer : s.answer host horizon .never ask =
      ⟨replyOf f (m'.advanceTo x.resolver.under position), { s with
        cursor := .plain (m'.advanceTo x.resolver.under position).2 false (some token) },
        host'⟩ := by
    cases ha with
    | stepAt =>
      rw [answer, hseek]
      unfold Asked.read replyOf
      cases (m'.advanceTo x.resolver.under position).1 <;> rfl
    | proofAt =>
      rw [answer, hseek]
      unfold Asked.read replyOf
      cases (m'.advanceTo x.resolver.under position).1 <;> rfl
  have hjob : s.job host horizon .never ask = s.answer host horizon .never ask :=
    job_of_open h.isOpen (by rw [hanswer]; exact hs.isOpen)
  rw [hjob, hanswer]
  exact ⟨m', hm', hle, hsame, rfl, hs⟩

/-- A question about the last step leaves a session that serves, if there is a last step. -/
theorem job_last (h : Serves x m₀ token s host) (horizon : Nat) {k : Nat} (hk : k < UInt64.size)
    (he : m₀.EndsIn x.resolver.under k) :
    (s.job host horizon .never .last).session.cursor =
        (s.cursor.stepInChunks host horizon .never s.stepChunk).1.machine ∧
      Serves x m₀ token (s.job host horizon .never .last).session
        (s.job host horizon .never .last).host := by
  obtain ⟨m, hc, hm⟩ := h.cursor
  obtain ⟨hhost, n, m', hm', hn⟩ :=
    stepInChunks_plain_machine host horizon .never s.stepChunk m (some token)
  have hreached : Reached x.resolver.under m₀ m' := by
    rw [h.run_eq hm] at hn
    exact hm.run h.steps hk he hn
  have hanswer : (s.answer host horizon .never .last).session =
        { s with cursor := .plain m' false (some token) } ∧
      (s.answer host horizon .never .last).host = host := by
    rw [answer, runToHalt, hc]
    unfold Asked.read goOn
    dsimp only
    rw [← hm']
    split
    · exact ⟨rfl, hhost⟩
    · exact ⟨rfl, hhost⟩
  have hjob : s.job host horizon .never .last = s.answer host horizon .never .last :=
    job_of_open h.isOpen (by rw [hanswer.1]; exact h.isOpen)
  rw [hjob, hanswer.1, hanswer.2, hc, hm']
  exact ⟨rfl, h.moved hreached⟩

end Serves

/-! ## Histories -/

/-- A session and its host after questions that were asked one after the other. -/
def afterAll (horizon : Nat) : List Ask → Session × Host → Session × Host
  | [], r => r
  | ask :: rest, (s, host) =>
    let a := s.job host horizon .never ask
    afterAll horizon rest (a.session, a.host)

/-- Whatever was asked, the session serves. -/
theorem Serves.afterAll (h : Serves x m₀ token s host) (horizon : Nat) {history : List Ask}
    (hlast : .last ∈ history → ∃ k < UInt64.size, m₀.EndsIn x.resolver.under k) :
    Serves x m₀ token (Session.afterAll horizon history (s, host)).1
      (Session.afterAll horizon history (s, host)).2 := by
  induction history generalizing s host with
  | nil => exact h
  | cons ask rest ih =>
    have hrest : .last ∈ rest → ∃ k < UInt64.size, m₀.EndsIn x.resolver.under k :=
      fun hin => hlast (List.mem_cons_of_mem ask hin)
    obtain ⟨m, hc, hm⟩ := h.cursor
    cases ask with
    | stepAt position =>
      obtain ⟨-, -, -, -, -, hs⟩ := h.job_eq hc hm horizon (.stepAt : Asks position _ _)
      exact ih hs hrest
    | proofAt position =>
      obtain ⟨-, -, -, -, -, hs⟩ := h.job_eq hc hm horizon (.proofAt : Asks position _ _)
      exact ih hs hrest
    | last =>
      obtain ⟨k, hk, he⟩ := hlast List.mem_cons_self
      exact ih (h.job_last horizon hk he).2 hrest

/-! ## Answers of sessions with different tokens -/

theorem replyOf_withToken {position : UInt64} {ask : Ask} {f : Instance → Reply}
    (ha : Asks position ask f) {r r' : Result Unit × Machine} {u : Nat}
    (h1 : r'.1.untoken = r.1.untoken) (h2 : r'.2 = r.2.withToken u) :
    Result.untoken (replyOf f r') = Result.untoken (replyOf f r) := by
  have hf : f (.plain (r.2.withToken u)) = f (.plain r.2) := by
    cases ha <;> rfl
  unfold replyOf
  rw [h2, hf]
  cases hr : r.1 with
  | ok v =>
    rw [hr, Result.untoken_ok, Result.untoken_eq_ok] at h1
    rw [h1]
  | error e =>
    rw [hr] at h1
    obtain ⟨g, hg, hge⟩ := Result.untoken_eq_error h1
    rw [hg]
    exact congrArg Except.error hge

/-- The resolver of an input answers alike under all tokens. -/
theorem matches_under (x : Input) (m : Machine) (u : Nat) :
    Matches x.resolver.under x.resolver.under m.context u :=
  fun hash => x.resolver.under_untoken u m.context hash

theorem replyOf_run_loaded {position : UInt64} {ask : Ask} {f : Instance → Reply}
    (ha : Asks position ask f) (x : Input) (m : Machine) (t : Nat) (n : Nat) :
    Result.untoken (replyOf f ((m.loaded x t).run x.resolver.under n)) =
      Result.untoken (replyOf f ((m.loaded x 0).run x.resolver.under n)) := by
  obtain ⟨h1, h2⟩ := run_withToken (matches_under x (m.loaded x 0) t) n
  exact replyOf_withToken ha h1 h2

theorem haltsUncountedAt_loaded (x : Input) (m : Machine) (t n : Nat) :
    (m.loaded x t).HaltsUncountedAt x.resolver.under n ↔
      (m.loaded x 0).HaltsUncountedAt x.resolver.under n := by
  obtain ⟨h1, h2⟩ := run_withToken (matches_under x (m.loaded x 0) t) n
  rw [loaded_withToken] at h1 h2
  have hok : ((m.loaded x t).run x.resolver.under n).1 = .ok () ↔
      ((m.loaded x 0).run x.resolver.under n).1 = .ok () := by
    rw [← Result.untoken_eq_ok, h1, Result.untoken_eq_ok]
  unfold HaltsUncountedAt
  rw [hok, h2]
  rfl

theorem endsIn_loaded (x : Input) (m : Machine) (t k : Nat) :
    (m.loaded x t).EndsIn x.resolver.under k ↔ (m.loaded x 0).EndsIn x.resolver.under k := by
  obtain ⟨h1, h2⟩ := run_withToken (matches_under x (m.loaded x 0) t) k
  rw [loaded_withToken] at h1 h2
  have hok : ((m.loaded x t).run x.resolver.under k).1 = .ok () ↔
      ((m.loaded x 0).run x.resolver.under k).1 = .ok () := by
    rw [← Result.untoken_eq_ok, h1, Result.untoken_eq_ok]
  unfold EndsIn IsOver
  rw [Ne, Ne, hok, h2]
  rfl

/-- What a session answers that was just opened. -/
theorem answer_of_fresh {host host' : Host} {root : Digest} {stepChunk : UInt64} {m : Machine}
    (h0 : m.progress.steps = 0) {isFrozen : Bool}
    (ho : opened host root (.plain m isFrozen none) x stepChunk = (.ok s, host'))
    {position : UInt64} {ask : Ask} {f : Instance → Reply} (ha : Asks position ask f)
    (horizon : Nat) :
    (s.job host' horizon .never ask).result.untoken =
      Result.untoken (replyOf f ((m.loaded x 0).run x.resolver.under position.toNat)) := by
  obtain ⟨s', host'', ho', hc, hs⟩ := opened_plain host root x stepChunk h0 isFrozen
  rw [ho] at ho'
  cases ho'
  obtain ⟨m', hm', hle, hsame, hr, -⟩ := hs.job_eq hc (reached_here hs.steps) horizon ha
  have hzero : (m.loaded x (host.registry.lastToken + 1)).progress.steps ≤ position := by
    rw [hs.steps]
    exact UInt64.zero_le
  rw [hr, hsame hzero, advanceTo_of_fresh hs.steps, replyOf_run_loaded ha]

/-- What a session answers after others have asked. -/
theorem answer_of_history {host host' : Host} {root : Digest} {stepChunk : UInt64} {m : Machine}
    (h0 : m.progress.steps = 0) {isFrozen : Bool}
    (ho : opened host root (.plain m isFrozen none) x stepChunk = (.ok s, host'))
    {history : List Ask}
    (hlast : .last ∈ history → ∃ k < UInt64.size, (m.loaded x 0).EndsIn x.resolver.under k)
    {position : UInt64} {ask : Ask} {f : Instance → Reply} (ha : Asks position ask f)
    (horizon : Nat) :
    let r := afterAll horizon history (s, host')
    (r.1.job r.2 horizon .never ask).result.untoken =
        Result.untoken (replyOf f ((m.loaded x 0).run x.resolver.under position.toNat)) ∨
      (m.loaded x 0).HaltsUncountedAt x.resolver.under position.toNat ∧
        (r.1.job r.2 horizon .never ask).result.untoken =
          Result.untoken (replyOf f ((m.loaded x 0).run x.resolver.under (position.toNat + 1))) := by
  obtain ⟨s', host'', ho', -, hs⟩ := opened_plain host root x stepChunk h0 isFrozen
  rw [ho] at ho'
  cases ho'
  have hserves := hs.afterAll horizon fun hin => by
    obtain ⟨k, hk, he⟩ := hlast hin
    exact ⟨k, hk, (endsIn_loaded x m _ k).2 he⟩
  obtain ⟨c, hc, hcr⟩ := hserves.cursor
  obtain ⟨m', hm', hle, -, hr, -⟩ := hserves.job_eq hc hcr horizon ha
  dsimp only
  rw [hr]
  obtain hadv | ⟨hhalts, hadv⟩ := hm'.advanceTo_eq hle
  · left
    rw [hadv, replyOf_run_loaded ha]
  · right
    rw [hadv, replyOf_run_loaded ha]
    exact ⟨(haltsUncountedAt_loaded x m _ _).1 hhalts, rfl⟩

/-- A session that was asked for the last step answers a question about a position with the halt
behind it, if that was not counted. -/
theorem answer_of_last {host host' : Host} {root : Digest} {stepChunk : UInt64} {m : Machine}
    (h0 : m.progress.steps = 0) {isFrozen : Bool}
    (ho : opened host root (.plain m isFrozen none) x stepChunk = (.ok s, host'))
    {position : UInt64} (hh : (m.loaded x 0).HaltsUncountedAt x.resolver.under position.toNat)
    {ask : Ask} {f : Instance → Reply} (ha : Asks position ask f) {horizon : Nat}
    (hhorizon : UInt64.size ≤ horizon) :
    let r := afterAll horizon [.last] (s, host')
    (r.1.job r.2 horizon .never ask).result.untoken =
      Result.untoken (replyOf f ((m.loaded x 0).run x.resolver.under (position.toNat + 1))) := by
  obtain ⟨s', host'', ho', hc, hs⟩ := opened_plain host root x stepChunk h0 isFrozen
  rw [ho] at ho'
  cases ho'
  have hp := position.toNat_lt_size
  have hh' := (haltsUncountedAt_loaded x m (host.registry.lastToken + 1) position.toNat).2 hh
  obtain ⟨m', st, hrun, -, hsteps, hst, hend⟩ := hh'.halted hs.steps hp
  have hover : IsOver ((m.loaded x (host.registry.lastToken + 1)).run x.resolver.under
      (position.toNat + 1)) := by
    rw [hend]
    exact .inr hst
  obtain ⟨hcursor, hserves⟩ := hs.job_last horizon hp (.inr hh'.2.2)
  have hmachine : (s.cursor.stepInChunks host' horizon .never s.stepChunk).1.machine =
      .plain (m'.setStatus st) false (some (host.registry.lastToken + 1)) := by
    have hrun_eq := hs.run_eq (reached_here hs.steps) (position.toNat + 1)
    have hfuel : position.toNat + 1 < horizon + 1 := by omega
    have hchunks := runInChunks_eq_run
      (Nat.lt_of_lt_of_le Nat.zero_lt_one (Nat.le_max_right s.stepChunk.toNat 1))
      hfuel (hrun_eq ▸ hover)
    rw [hc]
    obtain ⟨-, hm⟩ := Handle.stepInChunks_plain 0
      (show ((Handle.plain (m.loaded x (host.registry.lastToken + 1)) false
        (some (host.registry.lastToken + 1))).stepInChunks host' horizon .never
          s.stepChunk).1.deadline.isExpired = false from rfl) (.inl rfl)
    refine hm.trans ?_
    show Handle.plain (runInChunks _ _ (horizon + 1) _).2 _ _ = _
    rw [hchunks, hrun_eq, hend]
  obtain ⟨c, hcc, hcr⟩ := hserves.cursor
  rw [hcursor, hmachine] at hcc
  obtain rfl : m'.setStatus st = c := by
    cases hcc
    rfl
  obtain ⟨c, -, -, hsame, hr, -⟩ := hserves.job_eq (hcursor.trans hmachine) hcr horizon ha
  have heq : (m'.setStatus st).progress.steps = position := UInt64.toNat_inj.1 hsteps
  obtain rfl := hsame (by rw [heq]; exact UInt64.le_refl position)
  have hadv : (m'.setStatus st).advanceTo x.resolver.under position =
      (.ok (), m'.setStatus st) := by
    unfold advanceTo
    rw [if_neg]
    rintro ⟨hlt, -⟩
    rw [heq] at hlt
    exact UInt64.lt_irrefl _ hlt
  rw [hadv, ← hend] at hr
  show Result.untoken (Asked.result (job _ _ _ _ _)) = _
  rw [← replyOf_run_loaded ha x m (host.registry.lastToken + 1), ← hr]
  rfl

/-! ## What the answers tell -/

/-- Whether the answers to questions about a position tell nothing of the questions before: after
any history they are those of a session that was just opened, up to the token. The last step is only
asked for where the run ends before the count of steps is full. -/
def Forgets (p : Program) (source : Handle) (x : Input) (position : UInt64) : Prop :=
  ∀ (root : Digest) (stepChunk : UInt64) (horizon : Nat) (s s' : Session)
    (host host' before before' : Host) (history : List Ask) (ask : Ask) (f : Instance → Reply),
    opened before root source x stepChunk = (.ok s, host) →
    opened before' root source x stepChunk = (.ok s', host') →
    (.last ∈ history → ∃ k < UInt64.size, ((ofProgram p).loaded x 0).EndsIn x.resolver.under k) →
    Asks position ask f →
    ((afterAll horizon history (s, host)).1.job (afterAll horizon history (s, host)).2 horizon
        .never ask).result.untoken =
      (s'.job host' horizon .never ask).result.untoken

theorem forgets_of_not_halts {p : Program} {x : Input} {position : UInt64}
    (h : ¬ ((ofProgram p).loaded x 0).HaltsUncountedAt x.resolver.under position.toNat) :
    Forgets p (.plain (ofProgram p) true none) x position := by
  intro root stepChunk horizon s s' host host' before before' history ask f ho ho' hlast ha
  rw [answer_of_fresh rfl ho' ha horizon]
  obtain hsame | ⟨hhalts, -⟩ := answer_of_history rfl ho hlast ha horizon
  · exact hsame
  · exact absurd hhalts h

theorem not_forgets_of_halts {p : Program} {x : Input} {position : UInt64}
    (h : ((ofProgram p).loaded x 0).HaltsUncountedAt x.resolver.under position.toNat) :
    ¬ Forgets p (.plain (ofProgram p) true none) x position := by
  intro hf
  obtain ⟨s, host, ho, -, -⟩ := opened_plain ⟨.empty [], .empty, none⟩ default x 1
    (rfl : (ofProgram p).progress.steps = 0) true
  have hsame := hf default 1 UInt64.size s s host host _ _ [.last] _ _ ho ho
    (fun _ => ⟨position.toNat, position.toNat_lt_size, .inr h.2.2⟩) .stepAt
  rw [answer_of_fresh rfl ho .stepAt] at hsame
  have hlast := answer_of_last rfl ho h .stepAt (Nat.le_refl UInt64.size)
  dsimp only at hlast
  rw [hlast] at hsame
  -- the two replies tell different statuses
  obtain ⟨m, st, hrun, hrunning, -, hst, hend⟩ := h.halted rfl position.toNat_lt_size
  rw [hrun, hend] at hsame
  have hstatus : st = m.progress.status := by
    have hinfo := Except.ok.inj hsame
    exact congrArg StepInfo.status (Reply.info.inj hinfo)
  rw [hstatus, hrunning] at hst
  cases hst

/-- A session answers questions about a position alike whatever it was asked before, unless the
machine halts right there without another step, behind the last instruction or for want of a
message. -/
theorem answers_forget_iff {backend : Backend} (hb : backend.IsReference) {p : Program}
    {pair : MachinePair} (hpair : MachinePair.Built backend p pair) (x : Input)
    (position : UInt64) :
    Forgets p pair.zeroStep x position ↔
      ¬ ((ofProgram p).loaded x 0).HaltsUncountedAt x.resolver.under position.toNat := by
  obtain ⟨m, -, -, rfl⟩ := hpair.pair_eq hb
  refine ⟨?_, forgets_of_not_halts⟩
  intro hf hh
  exact not_forgets_of_halts hh hf

/-- The reader halts in a step that is counted, so nothing tells what was asked before. -/
theorem answers_forget_iff_on_reader : Forgets reader readerPair.zeroStep readerInput 1 := by
  refine (answers_forget_iff referenceBackend_isReference readerPair_built readerInput 1).2 ?_
  rintro ⟨-, -, hhalts⟩
  cases hhalts

/-- Without a message the reader halts where it is, and the position is told in two ways. -/
theorem reader_remembers : ¬ Forgets reader readerPair.zeroStep default 0 :=
  not_forgets_of_halts ⟨rfl, rfl, rfl⟩

end Session

end Rerun
