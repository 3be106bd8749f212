import Rerun.Proofs.Node.Runners
import Rerun.Proofs.Site.Closed

/-!
# Stopping a node is final

A node that was stopped while nothing was being built cancels every run and every question to a
session before anything is done for it, even if it is started again. It goes on handing out the
machine pairs that it has, and refuses all others (`stop_is_final`).
-/

namespace Rerun

/-! ## Runs that are refused -/

/-- A run of an input that was cancelled. -/
structure Run.IsCancelled (root : Digest) (x : Input) (run : Run) : Prop where
  id : run.id = x.id
  root : run.root = root
  outcome : run.outcome? = some (.error .cancelled)

namespace Runner

variable {r : Runner} {e : Error}

/-- What a runner refuses takes no time, and does nothing to the site. -/
theorem work_refused {isClosed : Bool} (h : r.refusal isClosed = some e) (s : Site)
    (root : Digest) (x : Input) (patience : Option Nat) :
    r.work s root x isClosed patience = (fail e, 0, s) := by
  unfold work
  rw [h]

theorem complete_refused (run : Run) (h : r.refusal run.isClosed = some .cancelled) (s : Site)
    (x : Input) : (r.complete s run x).1 = (run.take (.error .cancelled)).2 ∧
      s.Rests (r.complete s run x).2 := by
  unfold complete
  rw [work_refused h]
  exact ⟨rfl, .counted _⟩

theorem completeWithin_refused (run : Run) (h : r.refusal run.isClosed = some .cancelled)
    (s : Site) (x : Input) (patience : Nat) :
    ((r.completeWithin s run x patience).2.1 = (run.close.take (.error .cancelled)).2 ∨
      (r.completeWithin s run x patience).2.1 = (run.take (.error .cancelled)).2.close) ∧
      s.Rests (r.completeWithin s run x patience).2.2 := by
  unfold completeWithin
  rw [work_refused h]
  dsimp only
  split
  · exact ⟨.inl rfl, .counted _⟩
  · exact ⟨.inr rfl, .counted _⟩

/-- A run as it is launched. -/
def launched (r : Runner) (root : Digest) (x : Input) : Run :=
  { id := x.id, root, isClosed := r.isStopped }

theorem launchAll_rests (r : Runner) (s : Site) (root : Digest) (xs : List Input) :
    (r.launchAll s root xs).1 = xs.map (r.launched root) ∧ s.Rests (r.launchAll s root xs).2 := by
  induction xs generalizing s with
  | nil => exact ⟨rfl, .refl s⟩
  | cons x xs ih =>
    obtain ⟨hruns, hrests⟩ := ih (r.launch s root x).2
    exact ⟨congrArg (r.launched root x :: ·) hruns, (Site.Rests.counted _).trans hrests⟩

theorem completeAll_refused (r : Runner) (s : Site) (d : Deadline) (workers : Pool.Roster)
    {runs : List (Run × Input × Option (Except Error MachinePair))}
    (h : ∀ x ∈ runs, x.2.2 = some (.error .cancelled)) :
    (r.completeAll s d workers runs).1 =
        runs.map (fun x => (x.1.take (.error .cancelled)).2) ∧
      s.Rests (r.completeAll s d workers runs).2.2 := by
  induction runs generalizing s workers with
  | nil => exact ⟨rfl, .refl s⟩
  | cons x runs ih =>
    obtain ⟨run, x, answer⟩ := x
    obtain rfl : answer = some (.error .cancelled) := h _ List.mem_cons_self
    have hrest : ∀ x ∈ runs, x.2.2 = some (.error .cancelled) := fun x hx =>
      h x (List.mem_cons_of_mem _ hx)
    obtain ⟨hruns, hrests⟩ := ih (deliver s run d.spent (fail .cancelled)).2 workers hrest
    exact ⟨congrArg ((run.take (.error .cancelled)).2 :: ·) hruns,
      (Site.Rests.counted _).trans hrests⟩

theorem runAll_refused (h : r.refusal false = some .cancelled) {s : Site}
    (hw : s.depot.walks = []) (root : Digest) (xs : List Input) :
    List.Forall₂ (Run.IsCancelled root) xs (r.runAll s root xs).1 ∧
      s.Rests (r.runAll s root xs).2 := by
  obtain ⟨hruns, hlaunched⟩ := r.launchAll_rests s root xs
  unfold runAll pairs
  generalize r.launchAll s root xs = launched at hruns hlaunched
  obtain ⟨runs, s₁⟩ := launched
  subst hruns
  rw [h]
  dsimp only
  let refused : Option (Except Error MachinePair) := some (.error .cancelled)
  have hrefused : ∀ x ∈ (xs.map (r.launched root)).zip
      (xs.zip (List.replicate xs.length refused)), x.2.2 = refused := by
    intro x hx
    have hanswer := (List.of_mem_zip (List.of_mem_zip hx).2).2
    exact (List.mem_replicate.1 hanswer).2
  obtain ⟨hdone, hrests⟩ := r.completeAll_refused s₁ .never (.ofPool r.pool) hrefused
  generalize r.completeAll s₁ .never _ _ = ended at hdone hrests
  obtain ⟨runs, looks, s₂⟩ := ended
  subst hdone
  have hall := hlaunched.trans hrests
  dsimp only
  refine ⟨?_, ?_⟩
  · clear * -
    induction xs with
    | nil => exact .nil
    | cons x xs ih => exact .cons ⟨rfl, rfl, rfl⟩ ih
  · have hidle : s₂.depot.walks = [] := by
      obtain ⟨metrics, cache, -, rfl⟩ := hall
      exact hw
    rw [Site.pass_idle hidle]
    exact hall

end Runner

namespace Node

variable {config : Config} {place : Place} {reports : Reports} {n₀ n n' n'' m : Node}

/-! ## Nodes that were stopped -/

/-- A node that did nothing but count. -/
def Counted (n n' : Node) : Prop := ∃ site, n.site.Rests site ∧ n' = { n with site }

theorem Counted.trans (h : n.Counted n') (h' : n'.Counted n'') : n.Counted n'' := by
  obtain ⟨site, hs, rfl⟩ := h
  obtain ⟨site', hs', rfl⟩ := h'
  exact ⟨site', hs.trans hs', rfl⟩

theorem Counted.at_site {site : Site} (h : n.site.Rests site) : n.Counted { n with site } :=
  ⟨site, h, rfl⟩

theorem launch_counted (n : Node) (kind : Runner.Kind) (root : Digest) (x : Input) :
    n.Counted (n.launch kind root x).2 := .at_site (.counted _)

/-- What becomes of an operation on a node that was stopped: the reply and the node after it. -/
def Final (m : Node) (reply : Reply) (m' : Node) : Op → Prop
  | .run root x | .runBy _ root x | .runClosed root x | .runWithin root x _ =>
    m.Counted m' ∧ ∃ run, reply = .run run ∧ run.IsCancelled root x
  | .runAll root xs =>
    m.Counted m' ∧ ∃ runs, reply = .runs runs ∧ List.Forall₂ (Run.IsCancelled root) xs runs
  | .openSession _ _ => m' = m ∧ reply = .opened (fail .cancelled)
  | .ask i _ =>
    m' = m ∧ reply = if i < m.sessions.length then .answered (fail .cancelled) else .absent
  | .machines root => m.Counted m' ∧ reply = .machines (some (m.site.lastWord root))
  | .start | .disableNative | .closeSession _ | .closeDepot | .stop =>
    m'.site.depot = m.site.depot

/-- Whether a runner that an operation asks for is one that can have been given to someone. -/
def Op.IsHeld (held : Runner.Kind → Prop) : Op → Prop
  | .runBy kind _ _ => held kind
  | _ => True

/-- A node that was stopped while nothing was being built. -/
structure IsStopped (n : Node) : Prop where
  wired : n.Wired
  runners : ∀ kind, (n.runner kind).isStopped = true
  site : n.site.IsShut

/-- It cancels whatever it is asked to run, whether the caller closed it or not. -/
theorem IsStopped.refusal (h : m.IsStopped) {kind : Runner.Kind} (hr : (m.runner kind).IsReady)
    (isClosed : Bool) : (m.runner kind).refusal isClosed = some .cancelled := by
  rw [Runner.refusal_of_isReady hr, h.runners kind]
  rfl

section Operations

variable {kind : Runner.Kind} {e : Error}

theorem complete_refused (run : Run) (h : (m.runner kind).refusal run.isClosed = some .cancelled)
    (x : Input) : m.Counted (m.complete kind run x).2 ∧
      (m.complete kind run x).1 = (run.take (.error .cancelled)).2 := by
  obtain ⟨hrun, hrests⟩ := Runner.complete_refused run h m.site x
  exact ⟨.at_site hrests, hrun⟩

variable (h : ∀ isClosed, (m.runner kind).refusal isClosed = some .cancelled) (root : Digest)
  (x : Input)

include h

theorem refusal_launched (isClosed : Bool) :
    ((m.launch kind root x).2.runner kind).refusal isClosed = some .cancelled := by
  unfold launch
  rw [runner_withSite]
  exact h isClosed

theorem run_refused : m.Counted (m.run kind root x).2 ∧
    (m.run kind root x).1.IsCancelled root x := by
  have hlaunched := m.launch_counted kind root x
  unfold run
  obtain ⟨hcounted, hrun⟩ := complete_refused (m.launch kind root x).1
    (refusal_launched h root x _) x
  refine ⟨hlaunched.trans hcounted, ?_⟩
  rw [hrun]
  exact ⟨rfl, rfl, rfl⟩

theorem runClosed_refused : m.Counted (m.runClosed kind root x).2.2 ∧
    (m.runClosed kind root x).2.1.IsCancelled root x := by
  have hlaunched := m.launch_counted kind root x
  unfold runClosed
  obtain ⟨hcounted, hrun⟩ := complete_refused (m.launch kind root x).1.close
    (refusal_launched h root x _) x
  refine ⟨hlaunched.trans hcounted, ?_⟩
  rw [hrun]
  exact ⟨rfl, rfl, rfl⟩

theorem runWithin_refused (ms : Nat) : m.Counted (m.runWithin kind root x ms).2.2 ∧
    (m.runWithin kind root x ms).2.1.IsCancelled root x := by
  have hlaunched := m.launch_counted kind root x
  unfold runWithin
  obtain ⟨hrun, hrests⟩ := Runner.completeWithin_refused (m.launch kind root x).1
    (refusal_launched h root x _) (m.launch kind root x).2.site x
    (ms * (m.launch kind root x).2.site.clock.pace)
  refine ⟨hlaunched.trans (.at_site hrests), ?_⟩
  rcases hrun with hrun | hrun <;> (rw [hrun]; exact ⟨rfl, rfl, rfl⟩)

end Operations

/-- A node that was stopped refuses everything that would take work. -/
theorem IsStopped.perform_final (h : m.IsStopped) {op : Op}
    (hop : op.IsHeld fun kind => (m.runner kind).IsReady) :
    m.Final (m.perform op).1 (m.perform op).2 op := by
  have hserving := h.refusal h.wired.serving
  have hstopped : m.interpreter.isStopped = true := h.runners .interpreter
  cases op with
  | run root x =>
    obtain ⟨hcounted, hrun⟩ := run_refused hserving root x
    exact ⟨hcounted, _, rfl, hrun⟩
  | runBy kind root x =>
    obtain ⟨hcounted, hrun⟩ := run_refused (h.refusal hop) root x
    exact ⟨hcounted, _, rfl, hrun⟩
  | runClosed root x =>
    obtain ⟨hcounted, hrun⟩ := runClosed_refused hserving root x
    exact ⟨hcounted, _, rfl, hrun⟩
  | runWithin root x ms =>
    obtain ⟨hcounted, hrun⟩ := runWithin_refused hserving root x ms
    exact ⟨hcounted, _, rfl, hrun⟩
  | runAll root xs =>
    obtain ⟨hruns, hrests⟩ := Runner.runAll_refused (hserving false) h.site.walks root xs
    exact ⟨.at_site hrests, _, rfl, hruns⟩
  | openSession root x =>
    have hrefused : m.openSession root x = (fail .cancelled, m) := by
      unfold openSession
      rw [if_pos hstopped]
    unfold perform
    dsimp only
    rw [hrefused]
    exact ⟨rfl, rfl⟩
  | ask i question =>
    unfold perform
    dsimp only
    by_cases hi : i < m.sessions.length
    · have hrefused : ∀ s, m.ask i s question = (fail .cancelled, m) := by
        intro s
        unfold ask isOver
        rw [hstopped, Bool.or_true]
        rfl
      rw [List.getElem?_eq_getElem hi]
      dsimp only
      rw [hrefused]
      exact ⟨rfl, by rw [if_pos hi]⟩
    · rw [List.getElem?_eq_none (not_lt.1 hi)]
      exact ⟨rfl, by rw [if_neg hi]⟩
  | machines root =>
    obtain ⟨hanswer, -, hrests⟩ := Site.pair_shut h.site none root
    exact ⟨.at_site hrests, congrArg Reply.machines hanswer⟩
  | start => exact congrArg Site.depot m.start_site
  | disableNative => rfl
  | closeSession i =>
    unfold perform
    dsimp only
    split <;> rfl
  | closeDepot => exact congrArg Site.depot h.site.closeDepot_eq
  | stop => exact congrArg Site.depot h.site.closeDepot_eq

/-! ## Afterwards -/

theorem stop_isStopped (hw : n.Wired)
    (hquiet : ∀ root, n.stop.site.depot.cache.isBuilding root = false) : n.stop.IsStopped where
  wired := perform_wired hw .stop
  runners kind := by
    cases kind with
    | interpreter => rfl
    | native =>
      show ((n.native.map Runner.stop).getD n.interpreter.stop).isStopped = true
      cases n.native <;> rfl
  site := Site.closeDepot_isShut hquiet

/-- Whatever is done at a stopped node, it stays stopped, with the same pairs and the same files. -/
theorem IsStopped.performAll (h : n.IsStopped) (ops : List Op) :
    (n.performAll ops).2.IsStopped ∧ n.site.Dormant (n.performAll ops).2.site := by
  have hdormant : n.site.Dormant (n.performAll ops).2.site := by
    refine performAll_site (Site.lasting_dormant n.site) ?_ ops ⟨h.site, rfl, rfl⟩
    intro s hs
    rwa [hs.isShut.closeDepot_eq]
  exact ⟨⟨performAll_wired h.wired ops,
    fun kind => (n.performAll_later ops kind).isStopped (h.runners kind), hdormant.isShut⟩,
    hdormant⟩

/-- Take a node that did anything, was stopped, and had no build in flight by then. Whatever is done
afterwards, the depot stays closed, and its pairs and all files are as they were. Any operation then
comes to its end as that of a stopped node: runs, sessions and questions are cancelled, a pair that
is there is given, and any other is refused, by the runner that takes new runs as by any that
someone was given. No run and no request for a pair takes a look at the clock, so no engine takes a
step. -/
theorem stop_is_final (h : create config place reports = .ok n₀) (before later : List Op)
    (hquiet : ∀ root,
      (n₀.performAll (before ++ [.stop])).2.site.depot.cache.isBuilding root = false) :
    let n := (n₀.performAll (before ++ [.stop])).2
    let m := (n.performAll later).2
    let held := n₀.HandedOut (before ++ [.stop] ++ later)
    n.site.Dormant m.site ∧ (∀ root, m.site.lastWord root = n.site.lastWord root) ∧
      (∀ op : Op, op.IsHeld held → m.Final (m.perform op).1 (m.perform op).2 op) ∧
      (∀ kind, held kind → ∀ root x isClosed patience,
        (m.runner kind).work m.site root x isClosed patience = (fail .cancelled, 0, m.site)) ∧
      ∀ patience root, (m.site.pair patience root).2.1 = 0 := by
  intro n m held
  have hwired := wired_of_create h
  have hstop : n = (n₀.performAll before).2.stop := by
    unfold n
    rw [performAll_append]
    rfl
  have hstopped : n.IsStopped := by
    rw [hstop]
    refine stop_isStopped (performAll_wired hwired before) fun root => ?_
    rw [← hstop]
    exact hquiet root
  obtain ⟨hm, hdormant⟩ : m.IsStopped ∧ n.site.Dormant m.site := hstopped.performAll later
  have hall : (n₀.performAll (before ++ [.stop] ++ later)).2 = m := by
    rw [performAll_append]
  have hready : ∀ kind, held kind → (m.runner kind).IsReady := fun kind hk =>
    hall ▸ hk.isReady hwired
  refine ⟨hdormant, hdormant.lastWord_eq, ?_, ?_, ?_⟩
  · intro op hop
    apply hm.perform_final
    cases op with
    | runBy kind root x => exact hready kind hop
    | _ => trivial
  · intro kind hk root x isClosed patience
    exact Runner.work_refused (hm.refusal (hready kind hk) isClosed) m.site root x patience
  · intro patience root
    obtain ⟨-, hlooks, -⟩ := Site.pair_shut hm.site patience root
    exact hlooks

/-- A run of the reader, and a session over it that stays open. -/
def readerDay : List Op :=
  [.start, .run reader.root readerInput, .openSession reader.root readerInput]

theorem readerDay_ends :
    (readerNode.performAll (readerDay ++ [.stop])).2.site.depot.cache.entries.all
        (·.2.isReady) = true ∧
      ((readerNode.performAll (readerDay ++ [.stop])).2.site.depot.cache.ready?
        reader.root).isSome = true ∧
      0 < ((readerNode.performAll (readerDay ++ [.stop])).2.performAll
        [.start]).2.sessions.length ∧
      ((readerNode.performAll (readerDay ++ [.stop])).2.performAll [.start]).2.serving =
        .native := by
  decide +kernel

/-- The reader is started again after it was stopped: the native runner takes its runs and cancels
them, the session is over, and the pair is still there. -/
theorem stop_is_final_on_reader :
    let m := ((readerNode.performAll (readerDay ++ [.stop])).2.performAll [.start]).2
    m.serving = .native ∧
      (∃ run, (m.perform (.runBy .native reader.root readerInput)).1 = .run run ∧
        run.IsCancelled reader.root readerInput) ∧
      (m.perform (.ask 0 .last)).1 = .answered (fail .cancelled) ∧
      ∃ pair, (m.perform (.machines reader.root)).1 = .machines (some (.ok pair)) := by
  intro m
  obtain ⟨hready, hpair, hsession, hserving⟩ := readerDay_ends
  obtain ⟨pair, hpair⟩ := Option.isSome_iff_exists.1 hpair
  obtain ⟨-, hword, hfinal, -⟩ := stop_is_final create_reader readerDay [.start]
    (Cache.isBuilding_eq_false hready)
  have hheld : readerNode.HandedOut (readerDay ++ [.stop] ++ [.start]) .native :=
    ⟨[.start], ⟨_, rfl⟩, by decide +kernel⟩
  obtain ⟨-, hrun⟩ := hfinal (.runBy .native reader.root readerInput) hheld
  obtain ⟨-, hanswer⟩ := hfinal (.ask 0 .last) trivial
  obtain ⟨-, hmachines⟩ := hfinal (.machines reader.root) trivial
  have hkept := (hword reader.root).trans (Site.lastWord_ready hpair)
  exact ⟨hserving, hrun, hanswer.trans (if_pos hsession), pair,
    hmachines.trans (congrArg (Reply.machines ∘ some) hkept)⟩

end Node

end Rerun
