import Rerun.Proofs.Handle.Outcome
import Rerun.Proofs.Node.Stopped
import Rerun.Proofs.Site.Genuine

/-!
# Runs end in regular ways

A runner that is ready, at a site with genuine machines, tells of a run only what lies with its
module root, its input or its caller (`work_regular`). So does a node in all its replies
(`perform_regular`): no run finds a frozen or destroyed machine, a pool that was closed before its
caller gave up, a runner that was not started, or a token that nobody knows.
-/

namespace Rerun

open MachinePair (Genuine)

/-! ## Regular outcomes -/

namespace Run

/-- An outcome of a run at a site that is expected, or that of a machine of the program there which
was left while it still ran, after as many steps as can be asked for. -/
def Regular (s : Site) (root : Digest) (x : Input) (o : Except Error GlobalState) : Prop :=
  Expected root x o ∨ (∃ p m, s.depot.cache.entry? root = some (.ready (.frozen p m)) ∧
    (Machine.ofProgram p).RunsOn x) ∧ o = unfinished

/-- A run of an input whose outcome, if it has one, is regular. -/
structure EndsRegularly (s : Site) (root : Digest) (x : Input) (run : Run) : Prop where
  root_eq : run.root = root
  outcome : ∀ o, run.outcome? = some o → Regular s root x o

variable {s s' : Site} {root : Digest} {x : Input} {run : Run} {o : Except Error GlobalState}

theorem Regular.cancelled (s : Site) (root : Digest) (x : Input) :
    Regular s root x (.error .cancelled) := .inl .cancelled

/-- The program stays there. -/
theorem Regular.recalled (h : Regular s root x o) (hs : s.Recalls s') : Regular s' root x o := by
  rcases h with h | ⟨⟨p, m, hp, hon⟩, ho⟩
  · exact .inl h
  · exact .inr ⟨⟨p, m, (hs.ready root _ hp).1, hon⟩, ho⟩

theorem EndsRegularly.recalled (h : run.EndsRegularly s root x) (hs : s.Recalls s') :
    run.EndsRegularly s' root x :=
  ⟨h.root_eq, fun o ho => (h.outcome o ho).recalled hs⟩

/-- A run that comes to no other outcomes than these, if it comes to one. -/
def Ends (P : Except Error GlobalState → Prop) (run : Run) : Prop :=
  ∀ o, run.outcome? = some o → P o

variable {P : Except Error GlobalState → Prop}

theorem Ends.take (h : run.Ends P) (ho : P o) : (run.take o).2.Ends P := by
  intro o' ho'
  unfold outcome? Run.take Promise.resolve at ho'
  cases hp : run.promise.outcome with
  | some first =>
    -- the first outcome counts
    apply h
    rw [hp] at ho'
    exact ho'
  | none =>
    rw [hp] at ho'
    cases ho'
    exact ho

theorem Ends.close (h : run.Ends P) (hcancelled : P (.error .cancelled)) : run.close.Ends P := by
  have hsame : run.cancel.Ends P := h
  unfold Run.close giveUp
  split
  · exact hsame
  · exact hsame.take hcancelled

theorem close_root (run : Run) : run.close.root = run.root := by
  unfold Run.close giveUp
  split <;> rfl

theorem EndsRegularly.take (h : run.EndsRegularly s root x) (ho : Regular s root x o) :
    (run.take o).2.EndsRegularly s root x := ⟨h.root_eq, Ends.take h.outcome ho⟩

theorem EndsRegularly.close (h : run.EndsRegularly s root x) :
    run.close.EndsRegularly s root x :=
  ⟨run.close_root.trans h.root_eq, Ends.close h.outcome (.cancelled s root x)⟩

end Run

/-! ## Runners -/

namespace Runner

variable {r : Runner} {s s₀ s' : Site} {root : Digest} {x : Input} {run : Run}

/-- Whether only regular outcomes are told. -/
def TellsRegular (s : Site) (root : Digest) (x : Input) (result : Result GlobalState) : Prop :=
  ∀ o, told result = some o → Run.Regular s root x o

theorem TellsRegular.recalled {result : Result GlobalState} (h : TellsRegular s root x result)
    (hs : s.Recalls s') : TellsRegular s' root x result := fun o ho => (h o ho).recalled hs

theorem TellsRegular.fail {e : Error} (h : Run.Regular s root x (.error e)) :
    TellsRegular s root x (fail e) := by
  rintro o ⟨⟩
  exact h

theorem TellsRegular.endless : TellsRegular s root x (.error .endless) := by
  rintro o ⟨⟩

theorem TellsRegular.lift {o : Except Error GlobalState} (h : Run.Regular s root x o) :
    TellsRegular s root x (Instance.lift o) := by
  cases o with
  | ok g =>
    rintro o' ⟨⟩
    exact h
  | error e => exact .fail h

/-- The outcome of a run is that of the work on it, unless it had one before. -/
theorem deliver_ends {P : Except Error GlobalState → Prop} (h : run.Ends P) (s : Site)
    (looks : Nat) {result : Result GlobalState} (hr : ∀ o, told result = some o → P o) :
    (deliver s run looks result).1.Ends P := by
  rcases result with (e | payload | -) | g
  · exact h.take (hr _ rfl)
  · exact h
  · exact h
  · exact h.take (hr _ rfl)

theorem deliver_root (s : Site) (run : Run) (looks : Nat) (result : Result GlobalState) :
    (deliver s run looks result).1.root = run.root := by
  rcases result with (e | payload | -) | g <;> rfl

theorem deliver_regular (h : run.EndsRegularly s₀ root x) (s : Site) (looks : Nat)
    {result : Result GlobalState} (hr : TellsRegular s₀ root x result) :
    (deliver s run looks result).1.EndsRegularly s₀ root x :=
  ⟨(deliver_root s run looks result).trans h.root_eq, deliver_ends h.outcome s looks hr⟩

theorem deliver_site (s : Site) (run : Run) (looks : Nat) (result : Result GlobalState) :
    ∃ metrics, (deliver s run looks result).2 = { s with metrics } := by
  rcases result with (e | payload | -) | g <;> exact ⟨_, rfl⟩

theorem deliver_recalls (s : Site) (run : Run) (looks : Nat) (result : Result GlobalState) :
    s.Recalls (deliver s run looks result).2 := by
  obtain ⟨metrics, hsite⟩ := deliver_site s run looks result
  rw [hsite]
  exact Site.Recalls.refl s

/-- The pool of a tidy runner refuses a run only because somebody stopped the runner. -/
theorem IsTidy.pool_refusal (h : r.IsTidy) :
    r.pool.refusal r.isStopped = if r.isStopped then some .cancelled else none := by
  unfold Pool.refusal
  cases hs : r.isStopped with
  | true => rfl
  | false =>
    have hopen : r.pool.isClosed = false := by
      by_contra hclosed
      rw [Bool.not_eq_false] at hclosed
      rw [h hclosed] at hs
      cases hs
    rw [hopen]
    rfl

/-- What a run copies. The native runner starts from the program. -/
theorem source_eq (r : Runner) (p : Program) (m : Machine) :
    ∃ m', r.source (.frozen p m) = .plain m' true none ∧
      (r.kind = .native → m' = .ofProgram p) := by
  unfold source
  cases r.kind with
  | interpreter => exact ⟨m, rfl, nofun⟩
  | native => exact ⟨.ofProgram p, rfl, fun _ => rfl⟩

/-- Only the native runner takes all steps at once. -/
theorem kind_of_atOnce (h : r.way = .atOnce) : r.kind = .native := by
  unfold way at h
  cases hk : r.kind with
  | interpreter =>
    rw [hk] at h
    cases h
  | native => rfl

/-- What a copy of a machine of the pair that is there comes to is regular. -/
theorem regular_of_ends {p : Program} {m₀ m : Machine}
    (hp : s.depot.cache.entry? root = some (.ready (.frozen p m₀)))
    (hm : r.kind = .native → m = .ofProgram p) {result : Result GlobalState}
    (h : result = .error .endless ∨ ∃ o, result = Instance.lift o ∧
      (Run.Expected root x o ∨ r.way = .atOnce ∧ m.RunsOn x ∧ o = Run.unfinished)) :
    result = .error .endless ∨ ∃ o, result = Instance.lift o ∧ Run.Regular s root x o := by
  refine h.imp_right ?_
  rintro ⟨o, ho, hexpected | ⟨hway, hon, hunfinished⟩⟩
  · exact ⟨o, ho, .inl hexpected⟩
  · rw [hm (kind_of_atOnce hway)] at hon
    exact ⟨o, ho, .inr ⟨⟨p, m₀, hp, hon⟩, hunfinished⟩⟩

/-- A job that comes to no end or to an outcome hands over just that. -/
theorem settle_regular {result : Result GlobalState}
    (h : result = .error .endless ∨ ∃ o, result = Instance.lift o ∧ Run.Regular s₀ root x o)
    (s : Site) : TellsRegular s₀ root x (s.settle result).1 := by
  obtain rfl | ⟨o, rfl, ho⟩ := h
  · exact .endless
  · cases o with
    | ok g => exact .lift ho
    | error e => exact .lift ho

theorem onWorker_regular (ht : r.IsTidy) {pair : MachinePair} (hp : s₀.Gives root (.ok pair))
    (s : Site) (x : Input) (d : Deadline) :
    TellsRegular s₀ root x (r.onWorker s x d pair).1 := by
  have hready := hp.ready pair rfl
  cases hp.genuine with
  | @pair p m hroot =>
    cases hr : r.pool.refusal r.isStopped with
    | some e =>
      unfold onWorker
      rw [hr]
      rw [ht.pool_refusal] at hr
      split at hr
      · cases hr
        exact .fail (.cancelled s₀ root x)
      · cases hr
    | none =>
      obtain ⟨m', hsource, hm'⟩ := r.source_eq p m
      rw [onWorker_eq hr, hsource]
      exact settle_regular (regular_of_ends hready hm'
        (Handle.runCopy_ends s.host x d r.way s.clock.horizon m' true root)) _

/-- What someone is given who asks for machines: genuine ones, or word that the run was refused. -/
def Granted (s : Site) (root : Digest) (answer : Option (Except Error MachinePair)) : Prop :=
  ∀ o, answer = some o → s.Gives root o ∨ o = .error .cancelled

theorem withPair_regular (ht : r.IsTidy) {answer : Option (Except Error MachinePair)}
    (ha : Granted s₀ root answer) (s : Site) (x : Input) (d : Deadline) :
    TellsRegular s₀ root x (r.withPair s x d answer).1 := by
  rcases answer with _ | (e | pair)
  · unfold withPair
    dsimp only
    split
    · exact .fail (.cancelled s₀ root x)
    · exact .endless
  · rcases ha _ rfl with he | he
    · cases he.genuine with
      | failed reason => exact .fail (.inl (.unbuilt reason))
    · cases he
      exact .fail (.cancelled s₀ root x)
  · rcases ha _ rfl with hp | hp
    · exact onWorker_regular ht hp s x d
    · cases hp

section Completing

variable (hr : r.IsReady) (ht : r.IsTidy) (hs : s.IsGenuine)

include hr ht hs

/-- The work on a run tells only regular outcomes, if its runner is ready. -/
theorem work_regular (root : Digest) (x : Input) (isClosed : Bool) (patience : Option Nat) :
    TellsRegular (r.work s root x isClosed patience).2.2 root x
      (r.work s root x isClosed patience).1 := by
  have hrefusal := refusal_of_isReady hr isClosed
  cases h : r.refusal isClosed with
  | some e =>
    rw [work_refused h]
    rw [h] at hrefusal
    split at hrefusal
    · cases hrefusal
      exact .fail (.cancelled s root x)
    · cases hrefusal
  | none =>
    rw [work_eq h]
    obtain ⟨hgenuine, -, hgives⟩ := Site.pair_genuine hs (r.limit s.clock patience) root
    generalize s.pair (r.limit s.clock patience) root = found at hgenuine hgives ⊢
    obtain ⟨answer, looks, s₁⟩ := found
    dsimp only at hgenuine hgives ⊢
    have hruns := (Site.lasting_genuine s₁).runs
    have hlater := hruns.withPair r x (deadline s₁.clock (r.limit s.clock patience) looks) answer
      ⟨hgenuine, .refl s₁⟩
    exact (withPair_regular ht (fun o ho => .inl (hgives o ho)) s₁ x _).recalled
      (hruns.pass _ _ hlater).2

theorem complete_regular (h : run.EndsRegularly s root x) :
    (r.complete s run x).1.EndsRegularly (r.complete s run x).2 root x := by
  have hwork := work_regular hr ht hs run.root x run.isClosed none
  have hlater := (Site.lasting_genuine s).runs.work r run.root x run.isClosed none
    ⟨hs, .refl s⟩
  rw [h.root_eq] at hwork hlater
  unfold complete
  rw [h.root_eq]
  generalize r.work s root x run.isClosed none = worked at hwork hlater ⊢
  obtain ⟨result, looks, s₁⟩ := worked
  dsimp only at hwork ⊢
  exact (deliver_regular (h.recalled hlater.2) s₁ looks hwork).recalled (deliver_recalls _ _ _ _)

theorem completeWithin_regular (h : run.EndsRegularly s root x) (patience : Nat) :
    (r.completeWithin s run x patience).2.1.EndsRegularly
      (r.completeWithin s run x patience).2.2 root x := by
  have hwork := work_regular hr ht hs run.root x run.isClosed (some patience)
  have hlater := (Site.lasting_genuine s).runs.work r run.root x run.isClosed (some patience)
    ⟨hs, .refl s⟩
  rw [h.root_eq] at hwork hlater
  unfold completeWithin
  rw [h.root_eq]
  generalize r.work s root x run.isClosed (some patience) = worked at hwork hlater ⊢
  obtain ⟨result, looks, s₁⟩ := worked
  have hrun := h.recalled hlater.2
  dsimp only at hwork ⊢
  split
  · exact (deliver_regular hrun.close s₁ looks hwork).recalled (deliver_recalls _ _ _ _)
  · exact (deliver_regular hrun s₁ looks hwork).close.recalled (deliver_recalls _ _ _ _)

end Completing

theorem launched_regular (r : Runner) (s : Site) (root : Digest) (x : Input) :
    (r.launched root x).EndsRegularly s root x := ⟨rfl, fun _ ho => nomatch ho⟩

/-! ## Runs side by side -/

theorem inTurn_regular (ht : r.IsTidy) {answer : Option (Except Error MachinePair)}
    (ha : Granted s₀ root answer) (s : Site) (x : Input) (d : Deadline) (workers : Pool.Roster) :
    TellsRegular s₀ root x (r.inTurn s x d workers answer).1 := by
  rcases answer with _ | (e | pair)
  · exact withPair_regular ht ha s x d
  · exact withPair_regular ht ha s x d
  · rcases ha _ rfl with hp | hp
    · unfold inTurn
      dsimp only
      split
      · exact .endless
      · exact onWorker_regular ht hp s x _
    · cases hp

theorem requests_length (s : Site) (root : Digest) (count : Nat) :
    (s.requests root count).1.length = count := by
  induction count generalizing s with
  | zero => rfl
  | succ count ih => exact congrArg (· + 1) (ih _)

/-- Everyone of several is given genuine machines, unless the runner refuses all of them. -/
theorem pairs_granted (hr : r.IsReady) (hs : s.IsGenuine) (root : Digest) (count : Nat) :
    (r.pairs s root count).1.length = count ∧
      ∀ answer ∈ (r.pairs s root count).1, Granted (r.pairs s root count).2.2 root answer := by
  have hrefusal := refusal_of_isReady hr false
  unfold pairs
  cases h : r.refusal false with
  | some e =>
    rw [h] at hrefusal
    split at hrefusal
    · cases hrefusal
      refine ⟨List.length_replicate, fun answer ha o ho => ?_⟩
      rw [(List.mem_replicate.1 ha).2] at ho
      cases ho
      exact .inr rfl
    · cases hrefusal
  | none =>
    refine ⟨?_, fun answer ha o ho => ?_⟩
    · exact (List.length_map _).trans (requests_length s root count)
    · subst ho
      exact .inl ((Site.pairs_genuine hs _ root count).2.2 o ha)

theorem completeAll_regular (ht : r.IsTidy) (r' : Runner) (s : Site) (d : Deadline)
    (workers : Pool.Roster) (xs : List Input)
    {answers : List (Option (Except Error MachinePair))} (hlength : answers.length = xs.length)
    (ha : ∀ answer ∈ answers, Granted s₀ root answer) :
    List.Forall₂ (Run.EndsRegularly s₀ root) xs
      (r.completeAll s d workers ((xs.map (r'.launched root)).zip (xs.zip answers))).1 := by
  induction xs generalizing s workers answers with
  | nil => exact .nil
  | cons x xs ih =>
    cases answers with
    | nil => cases hlength
    | cons answer answers =>
      rw [List.forall_mem_cons] at ha
      exact .cons (deliver_regular (launched_regular r' s₀ root x) _ _
        (inTurn_regular ht ha.1 s x d workers)) (ih _ _ (Nat.succ.inj hlength) ha.2)

theorem runAll_regular (hr : r.IsReady) (ht : r.IsTidy) (hs : s.IsGenuine) (root : Digest)
    (xs : List Input) :
    List.Forall₂ (Run.EndsRegularly (r.runAll s root xs).2 root) xs (r.runAll s root xs).1 := by
  obtain ⟨hruns, -⟩ := r.launchAll_rests s root xs
  have hlaunched := (Site.lasting_genuine s).runs.launchAll r root xs ⟨hs, .refl s⟩
  unfold runAll
  generalize r.launchAll s root xs = launched at hruns hlaunched ⊢
  obtain ⟨runs, s₁⟩ := launched
  subst hruns
  have hpairs := (Site.lasting_genuine s₁).runs.runnerPairs r root xs.length
    ⟨hlaunched.1, .refl s₁⟩
  obtain ⟨hlength, hgranted⟩ := pairs_granted hr hlaunched.1 root xs.length
  dsimp only
  generalize r.pairs s₁ root xs.length = found at hpairs hlength hgranted ⊢
  obtain ⟨answers, d, s₂⟩ := found
  dsimp only at hpairs hlength hgranted ⊢
  have hruns := (Site.lasting_genuine s₂).runs
  have hdone := completeAll_regular ht r s₂ d (.ofPool r.pool) xs hlength hgranted
  have hlater := hruns.completeAll r d (.ofPool r.pool)
    ((xs.map (r.launched root)).zip (xs.zip answers)) ⟨hpairs.1, .refl s₂⟩
  generalize r.completeAll s₂ d (.ofPool r.pool) _ = ended at hdone hlater ⊢
  obtain ⟨runs, looks, s₃⟩ := ended
  exact hdone.imp fun _ _ hrun => hrun.recalled (hruns.pass _ _ hlater).2

end Runner

/-! ## Nodes -/

namespace Node

variable {n : Node}

/-- Whether all runs that a reply tells of end regularly at a site. -/
def Reply.IsRegular (s : Site) (reply : Reply) : Op → Prop
  | .run root x | .runBy _ root x | .runClosed root x | .runWithin root x _ =>
    ∃ run, reply = .run run ∧ run.EndsRegularly s root x
  | .runAll root xs =>
    ∃ runs, reply = .runs runs ∧ List.Forall₂ (Run.EndsRegularly s root) xs runs
  | _ => True

/-- A node whose runners are as they should be, at a site with genuine machines. -/
structure IsSound (n : Node) : Prop where
  wired : n.Wired
  tidy : ∀ kind, (n.runner kind).IsTidy
  site : n.site.IsGenuine

theorem IsSound.later {n' : Node} (h : n.IsSound) (hlater : n.Later n') (hw : n'.Wired)
    (hs : n'.site.IsGenuine) : n'.IsSound :=
  ⟨hw, fun kind => (hlater kind).isTidy (h.tidy kind), hs⟩

section Runs

variable (h : n.IsSound) {kind : Runner.Kind} (hr : (n.runner kind).IsReady) (root : Digest)
  (x : Input)

include h hr

/-- The launch of a run leaves a node as it should be. -/
theorem launch_regular :
    (n.launch kind root x).2.IsSound ∧ ((n.launch kind root x).2.runner kind).IsReady ∧
      (n.launch kind root x).1.EndsRegularly (n.launch kind root x).2.site root x := by
  have hlater : n.Later (n.launch kind root x).2 := fun kind' => by
    unfold launch
    dsimp only
    rw [runner_withSite]
    exact .refl _
  refine ⟨h.later hlater ⟨h.wired.interpreter, h.wired.native⟩ ?_, (hlater kind).isReady hr, ?_⟩
  · exact Site.withHost_genuine h.site n.site.host n.site.metrics.recordLaunch
  · exact (n.runner kind).launched_regular _ root x

/-- A run that was launched, and possibly closed, is completed. -/
theorem complete_regular {run : Run} (hrun : run.EndsRegularly n.site root x) :
    (n.complete kind run x).1.EndsRegularly (n.complete kind run x).2.site root x := by
  unfold complete
  exact Runner.complete_regular hr (h.tidy kind) h.site hrun

theorem run_regular :
    (n.run kind root x).1.EndsRegularly (n.run kind root x).2.site root x := by
  obtain ⟨hn, hready, hlaunched⟩ := launch_regular h hr root x
  unfold run
  generalize n.launch kind root x = launched at hn hready hlaunched ⊢
  exact complete_regular hn hready root x hlaunched

theorem runClosed_regular :
    (n.runClosed kind root x).2.1.EndsRegularly (n.runClosed kind root x).2.2.site root x := by
  obtain ⟨hn, hready, hlaunched⟩ := launch_regular h hr root x
  unfold runClosed
  generalize n.launch kind root x = launched at hn hready hlaunched ⊢
  have hcomplete := complete_regular hn hready root x hlaunched.close
  dsimp only
  generalize launched.2.complete kind launched.1.close x = done at hcomplete ⊢
  exact hcomplete

theorem runWithin_regular (ms : Nat) :
    (n.runWithin kind root x ms).2.1.EndsRegularly (n.runWithin kind root x ms).2.2.site root
      x := by
  obtain ⟨hn, hready, hlaunched⟩ := launch_regular h hr root x
  unfold runWithin
  generalize n.launch kind root x = launched at hn hready hlaunched ⊢
  exact Runner.completeWithin_regular hready (hn.tidy kind) hn.site hlaunched _

end Runs

/-- Whatever a node is asked, all runs end regularly. -/
theorem perform_regular (h : n.IsSound) {op : Op}
    (hop : op.IsHeld fun kind => (n.runner kind).IsReady) :
    (n.perform op).1.IsRegular (n.perform op).2.site op := by
  have hserving := h.wired.serving
  cases op with
  | run root x => exact ⟨_, rfl, run_regular h hserving root x⟩
  | runBy kind root x => exact ⟨_, rfl, run_regular h hop root x⟩
  | runClosed root x => exact ⟨_, rfl, runClosed_regular h hserving root x⟩
  | runWithin root x ms => exact ⟨_, rfl, runWithin_regular h hserving root x ms⟩
  | runAll root xs =>
    exact ⟨_, rfl, Runner.runAll_regular hserving (h.tidy n.serving) h.site root xs⟩
  | _ => trivial

end Node

end Rerun
