import Rerun.Node.Concurrent
import Rerun.Proofs.Node.Others
import Rerun.Proofs.Node.Regular

/-!
# Many runs in flight

However the work on many runs is mixed with everything else that happens at a node, what is known of
each task stays true: its runner was started before the launch, its machines are genuine, the token
of its copy is registered as long as there is the copy, and its outcome is a regular one, or word
that its pool is closed (`step_sound`). It is told the latter only if it was overtaken: someone who
stopped the runner cancelled its run and closed the pool after it had looked at the one, and before
it looked at the other. All other runs end in regular ways (`runs_end_regularly`).
-/

namespace Rerun.Node

open Handle (Balanced LeavesOthers)

/-- What a task hears that looks for a worker of a closed pool. -/
def poolClosed (n : Node) (kind : Runner.Kind) : Error :=
  .engineUnavailable s!"{(n.runner kind).pool.name} worker pool is closed"

theorem Later.poolClosed {n n' : Node} (h : n.Later n') (kind : Runner.Kind) :
    n'.poolClosed kind = n.poolClosed kind := by
  unfold Node.poolClosed
  rw [(h kind).poolName]

/-! ## What is known of a task -/

namespace Task

/-- The copy that a task has on a worker. -/
def handles (f : Task) : List Handle :=
  match f.stage with
  | .copied h => [h]
  | _ => []

/-- Only a task with a worker has a copy. -/
theorem handles_eq_nil {f : Task} (h : f.hasWorker = false) : f.handles = [] := by
  unfold handles
  cases hs : f.stage with
  | copied x =>
    unfold hasWorker at h
    rw [hs] at h
    cases h
  | _ => rfl

/-- How a run may end: in a regular way, or, if its task is late, with word that its pool is
closed. -/
def Allows (n : Node) (late : Prop) (f : Task) (o : Except Error GlobalState) : Prop :=
  Run.Regular n.site f.run.root f.input o ∨ late ∧ o = .error (n.poolClosed f.kind)

/-- What is known of the work on a run. -/
def Fits (n : Node) (late : Prop) (f : Task) : Prop :=
  match f.stage with
  | .launched | .delivered => True
  | .asked ticket => n.site.IsTicket f.run.root ticket
  | .equipped pair => n.site.Gives f.run.root (.ok pair)
  | .copied h => ∃ (p : Program) (m₀ m : Machine) (token : Nat),
      n.site.depot.cache.entry? f.run.root = some (.ready (.frozen p m₀)) ∧
      ((n.runner f.kind).kind = .native → m = .ofProgram p) ∧
      h = .plain (m.loaded f.input token) false (some token) ∧ token ≠ 0 ∧
      n.site.host.registry.found? token = some f.input.resolver
  | .ended result => ∀ o, Runner.told result = some o → f.Allows n late o

/-- A task at a node as it should be. -/
structure IsSound (n : Node) (late : Prop) (f : Task) : Prop where
  ready : (n.runner f.kind).kind = .native → f.wasStarted = true
  run : f.run.Ends (f.Allows n late)
  fits : f.Fits n late

variable {n n' : Node} {late : Prop} {f : Task} {o : Except Error GlobalState}

theorem Allows.carried (h : f.Allows n late o) (hlater : n.Later n')
    (hrecalls : n.site.Recalls n'.site) : f.Allows n' late o := by
  refine h.imp (fun hregular => hregular.recalled hrecalls) fun hlate => ?_
  rw [hlater.poolClosed]
  exact hlate

/-- What is known of a task stays true as long as its runner is of the same kind, what was found out
is still known, and what is found under its token stays the same. -/
theorem IsSound.carried (h : f.IsSound n late) (hlater : n.Later n')
    (hrecalls : n.site.Recalls n'.site)
    (hfound : ∀ x ∈ f.handles, ∀ t, x.family = some t →
      n'.site.host.registry.found? t = n.site.host.registry.found? t) : f.IsSound n' late := by
  have hkind := (hlater f.kind).kind
  refine ⟨fun hk => h.ready (hkind.symm.trans hk), fun o ho => (h.run o ho).carried hlater hrecalls,
    ?_⟩
  have hfits := h.fits
  unfold Fits at hfits ⊢
  unfold handles at hfound
  cases hs : f.stage with
  | launched => trivial
  | asked ticket =>
    rw [hs] at hfits
    exact hfits.recalled hrecalls
  | equipped pair =>
    rw [hs] at hfits
    exact hfits.recalled hrecalls
  | copied x =>
    rw [hs] at hfits hfound
    obtain ⟨p, m₀, m, token, hp, hm, rfl, h0, ht⟩ := hfits
    have hp' := (hrecalls.ready f.run.root _ hp).1
    refine ⟨p, m₀, m, token, hp', fun hk => hm (hkind.symm.trans hk), rfl, h0, ?_⟩
    rw [hfound _ (List.mem_singleton_self _) token rfl]
    exact ht
  | ended result =>
    rw [hs] at hfits
    exact fun o ho => (hfits o ho).carried hlater hrecalls
  | delivered => trivial

end Task

/-! ## What becomes of a node -/

/-- What becomes of a node while its runs go on. -/
structure Goes (n n' : Node) : Prop where
  isSound : n'.IsSound
  later : n.Later n'
  recalls : n.site.Recalls n'.site

theorem Goes.refl {n : Node} (h : n.IsSound) : n.Goes n := ⟨h, .refl n, .refl n.site⟩

/-- Work at the site that keeps the machines genuine, and what was found out. -/
theorem Goes.at_site {n : Node} (h : n.IsSound) {site : Site} (hs : site.IsGenuine)
    (hrecalls : n.site.Recalls site) : n.Goes { n with site } where
  isSound := ⟨⟨h.wired.interpreter, h.wired.native⟩, h.tidy, hs⟩
  later kind := by cases kind <;> exact .refl _
  recalls := hrecalls

theorem Goes.at_host {n : Node} (h : n.IsSound) (host : Host) (metrics : Metrics) :
    n.Goes { n with site := { n.site with host, metrics } } :=
  .at_site h (Site.withHost_genuine h.site host metrics) (.refl n.site)

theorem perform_goes {n : Node} (h : n.IsSound) (op : Op) : n.Goes (n.perform op).2 := by
  have hclose : ∀ {s : Site}, s.IsGenuine ∧ n.site.Recalls s →
      s.closeDepot.IsGenuine ∧ n.site.Recalls s.closeDepot := by
    rintro s ⟨hs, hrecalls⟩
    obtain ⟨hclosed, hmore⟩ := Site.closeDepot_genuine hs
    exact ⟨hclosed, hrecalls.trans hmore⟩
  obtain ⟨hsite, hrecalls⟩ := performAll_site (Site.lasting_genuine n.site) hclose [op]
    ⟨h.site, .refl n.site⟩
  have hlater := n.perform_later op
  exact ⟨h.later hlater (perform_wired h.wired op) hsite, hlater, hrecalls⟩

namespace Concurrent

variable {t : Concurrent} {n : Node} {late : Nat → Prop} {f g : Task} {i : Nat}

/-- Whether a task that saw its run not cancelled is about to look for a worker of a closed pool. -/
def Overtaken (t : Concurrent) (i : Nat) : Prop :=
  ∃ f pair, t.tasks[i]? = some f ∧ f.stage = .equipped pair ∧ f.looked = true ∧
    (t.node.runner f.kind).pool.isClosed = true

/-- A node and its tasks as they should be, some of which are late, and a registry in step with all
handles. -/
structure IsSound (late : Nat → Prop) (t : Concurrent) : Prop where
  node : t.node.IsSound
  held : ∀ kind ∈ t.held, (t.node.runner kind).IsReady
  balanced : Balanced t.node.site.host.registry (t.node.handles ++ t.tasks.flatMap Task.handles)
  tasks : ∀ (i : Nat) (f : Task), t.tasks[i]? = some f → f.IsSound t.node (late i)

/-! ## Changes -/

/-- Whatever is done at the node and leaves the handles of others alone leaves the tasks alone. -/
theorem IsSound.onNode (h : t.IsSound late) (hgoes : t.node.Goes n) (hheeds : t.node.Heeds n) :
    IsSound late { t with node := n } := by
  obtain ⟨hbalanced, hfound⟩ := hheeds _ h.balanced
  refine ⟨hgoes.isSound, fun kind hk => (hgoes.later kind).isReady (h.held kind hk), hbalanced,
    fun i f hi => (h.tasks i f hi).carried hgoes.later hgoes.recalls fun x hx => ?_⟩
  exact hfound x (List.mem_flatMap.2 ⟨f, List.mem_of_getElem? hi, hx⟩)

/-- Something is done by one task, which leaves the handles of all others alone. -/
theorem IsSound.onTask (h : t.IsSound late) (hi : t.tasks[i]? = some f) (hgoes : t.node.Goes n)
    (hg : g.IsSound n (late i))
    (hothers : LeavesOthers t.node.site.host.registry (f.handles ++ t.node.handles)
      n.site.host.registry (g.handles ++ n.handles)) :
    IsSound late { t with node := n, tasks := t.tasks.set i g } := by
  obtain ⟨hlt, rfl⟩ := List.getElem?_eq_some_iff.1 hi
  let others := t.tasks.eraseIdx i
  let rest := others.flatMap Task.handles
  have hbefore : t.tasks.Perm (t.tasks[i] :: others) :=
    (List.getElem_cons_eraseIdx_perm hlt).symm
  have hafter : (t.tasks.set i g).Perm (g :: others) := List.set_perm_cons_eraseIdx hlt g
  have hhandles : ∀ (fs : List Task) (f : Task) (hs : List Handle), fs.Perm (f :: others) →
      (hs ++ fs.flatMap Task.handles).Perm ((f.handles ++ hs) ++ rest) := by
    intro fs f hs p
    have hfs : (fs.flatMap Task.handles).Perm (f.handles ++ rest) :=
      p.flatMap_right Task.handles
    refine (hfs.append_left hs).trans ?_
    rw [List.append_assoc]
    exact List.perm_append_comm_assoc _ _ _
  obtain ⟨hbalanced, hfound⟩ := hothers rest (h.balanced.perm (hhandles _ _ _ hbefore))
  refine ⟨hgoes.isSound, fun kind hk => (hgoes.later kind).isReady (h.held kind hk),
    hbalanced.perm (hhandles _ _ _ hafter).symm, fun j x hx => ?_⟩
  dsimp only at hx
  by_cases hj : i = j
  · subst hj
    rw [List.getElem?_set_self hlt] at hx
    cases hx
    exact hg
  · rw [List.getElem?_set_ne hj] at hx
    refine (h.tasks j x hx).carried hgoes.later hgoes.recalls fun y hy => ?_
    have hother : x ∈ others := List.mem_eraseIdx_iff_getElem?.2 ⟨j, Ne.symm hj, hx⟩
    exact hfound y (List.mem_flatMap.2 ⟨x, hother, hy⟩)

/-- A task without a copy gets to a stage without a copy. -/
theorem IsSound.move (h : t.IsSound late) (hi : t.tasks[i]? = some f) (hf : f.handles = [])
    (hgoes : t.node.Goes n)
    (hheeds : ∀ hs, LeavesOthers t.node.site.host.registry hs n.site.host.registry hs)
    (hsessions : n.sessions = t.node.sessions) {stage : Task.Stage} (looked : Bool)
    (hs : Task.handles { f with stage, looked } = [])
    (hfits : Task.Fits n (late i) { f with stage, looked }) :
    IsSound late { t with node := n, tasks := t.tasks.set i { f with stage, looked } } := by
  have hold := h.tasks i f hi
  have hkind := (hgoes.later f.kind).kind
  refine h.onTask hi hgoes ⟨fun hk => hold.ready (hkind.symm.trans hk),
    fun o ho => (hold.run o ho).carried hgoes.later hgoes.recalls, hfits⟩ ?_
  have hhandles : n.handles = t.node.handles := by
    unfold Node.handles
    rw [hsessions]
  rw [hf, hs, hhandles]
  exact hheeds _

/-- The work on a run ends without a copy. -/
theorem IsSound.ends (h : t.IsSound late) (hi : t.tasks[i]? = some f) (hf : f.handles = [])
    {e : Error} (hr : f.Allows t.node (late i) (.error e)) :
    (t.move i f (.ended (fail e))).IsSound late := by
  refine h.move hi hf (.refl h.node) (fun hs => .refl _ hs) rfl false rfl ?_
  rintro o ⟨⟩
  exact hr

theorem IsSound.cancels (h : t.IsSound late) (hi : t.tasks[i]? = some f) (hf : f.handles = []) :
    (t.move i f (.ended (fail .cancelled))).IsSound late :=
  h.ends hi hf (.inl (.cancelled _ _ _))

/-- A task without a copy stays where it is, and looks or stops looking. -/
theorem IsSound.stays (h : t.IsSound late) (hi : t.tasks[i]? = some f) (hf : f.handles = [])
    (looked : Bool) : (t.move i f f.stage looked).IsSound late :=
  h.move hi hf (.refl h.node) (fun hs => .refl _ hs) rfl looked hf (h.tasks i f hi).fits

/-! ## What happens to a task -/

/-- The runner of a task is ready, as the task sees it. -/
theorem IsSound.runner_isReady (h : t.IsSound late) (hi : t.tasks[i]? = some f) :
    (t.runner f).IsReady := (h.tasks i f hi).ready

/-- Whoever is refused, or stops after a look, is told that it was cancelled. -/
theorem look_sound (h : t.IsSound late) (hi : t.tasks[i]? = some f) :
    (t.handle i f .look).IsSound late := by
  have hrefusal := Runner.refusal_of_isReady (h.runner_isReady hi) false
  rw [Bool.or_false] at hrefusal
  have hlook : ∀ stopped : Bool, f.handles = [] →
      (t.look i f (if stopped then some .cancelled else none)).IsSound late := by
    rintro (_ | _) hf
    · exact h.stays hi hf true
    · exact h.cancels hi hf
  unfold handle
  cases hs : f.stage with
  | launched =>
    have hf : f.handles = [] := Task.handles_eq_nil (by rw [Task.hasWorker, hs])
    dsimp only
    rw [hrefusal]
    exact hlook _ hf
  | asked ticket => exact hlook _ (Task.handles_eq_nil (by rw [Task.hasWorker, hs]))
  | equipped pair => exact hlook _ (Task.handles_eq_nil (by rw [Task.hasWorker, hs]))
  | _ => exact h

theorem ask_sound (h : t.IsSound late) (hi : t.tasks[i]? = some f) :
    (t.handle i f .ask).IsSound late := by
  unfold handle
  dsimp only
  split
  · rename_i hs _
    have hf : f.handles = [] := Task.handles_eq_nil (by rw [Task.hasWorker, hs])
    obtain ⟨hsite, hrecalls, hticket⟩ := Site.request_genuine h.node.site f.run.root
    have hheeds := (Site.outlastsRuns_leavesOthers t.node.site).request f.run.root
      fun hs => .refl _ hs
    exact h.move hi hf (.at_site h.node hsite hrecalls) hheeds rfl true rfl hticket
  · exact h

theorem hear_sound (h : t.IsSound late) (hi : t.tasks[i]? = some f) :
    (t.handle i f .hear).IsSound late := by
  have hfits := (h.tasks i f hi).fits
  unfold handle
  unfold Task.Fits at hfits
  dsimp only
  split
  · rename_i ticket hs _
    have hf : f.handles = [] := Task.handles_eq_nil (by rw [Task.hasWorker, hs])
    rw [hs] at hfits
    split
    · exact h.stays hi hf false
    · rename_i e ha
      cases (hfits.answer h.node.site ha).genuine with
      | failed reason => exact h.ends hi hf (.inl (.inl (.unbuilt reason)))
    · rename_i pair ha
      exact h.move hi hf (.refl h.node) (fun hs => .refl _ hs) rfl false rfl
        (hfits.answer h.node.site ha)
  · exact h

theorem timeOut_sound (h : t.IsSound late) (hi : t.tasks[i]? = some f) :
    (t.handle i f .timeOut).IsSound late := by
  have hends : ∀ limited : Bool, f.handles = [] →
      (if limited then t.move i f (.ended (fail .cancelled)) else t).IsSound late := by
    rintro (_ | _) hf
    · exact h
    · exact h.cancels hi hf
  unfold handle
  dsimp only
  split
  · rename_i hs _
    exact hends _ (Task.handles_eq_nil (by rw [Task.hasWorker, hs]))
  · rename_i ticket hs _
    exact hends _ (Task.handles_eq_nil (by rw [Task.hasWorker, hs]))
  · exact h

/-- A task that looks for a worker and finds the pool closed is late. -/
theorem acquire_sound (h : t.IsSound late) (hi : t.tasks[i]? = some f)
    (hlate : t.Overtaken i → late i) : (t.handle i f .acquire).IsSound late := by
  have hsound := h.tasks i f hi
  have hfits := hsound.fits
  unfold handle
  unfold Task.Fits at hfits
  dsimp only
  split
  · rename_i pair hs hlooked
    have hf : f.handles = [] := Task.handles_eq_nil (by rw [Task.hasWorker, hs])
    rw [hs] at hfits
    unfold Pool.refusal
    rw [if_neg Bool.false_ne_true]
    cases hclosed : (t.runner f).pool.isClosed with
    | true => exact h.ends hi hf (.inr ⟨hlate ⟨f, pair, hi, hs, hlooked, hclosed⟩, rfl⟩)
    | false =>
      rw [if_neg Bool.false_ne_true]
      dsimp only
      split
      · have hready := hfits.ready pair rfl
        cases hfits.genuine with
        | @pair p m₀ hp =>
          obtain ⟨m', hsource, hm'⟩ := (t.runner f).source_eq p m₀
          rw [hsource, Session.prepare_plain]
          let token := t.node.site.host.registry.lastToken + 1
          have hgoes := Goes.at_host h.node (Handle.supplied t.node.site.host f.input)
            t.node.site.metrics
          refine h.onTask hi hgoes ⟨hsound.ready,
            fun o ho => (hsound.run o ho).carried hgoes.later hgoes.recalls, ?_⟩ ?_
          · exact ⟨p, m₀, m', token, hready, hm', rfl, Nat.succ_ne_zero _,
              Handle.supplied_found _ _⟩
          · rw [hf]
            exact (LeavesOthers.register _ f.input.resolver rfl
              (Handle.loaded_sound m' f.input token)).frame t.node.handles
      · exact h.stays hi hf false
  · exact h

theorem work_sound (h : t.IsSound late) (hi : t.tasks[i]? = some f) (d : Deadline) :
    (t.handle i f (.work d)).IsSound late := by
  have hsound := h.tasks i f hi
  have hfits := hsound.fits
  unfold handle
  unfold Task.Fits at hfits
  cases hs : f.stage with
  | copied x =>
    have hf : f.handles = [x] := by
      unfold Task.handles
      rw [hs]
    rw [hs] at hfits
    obtain ⟨p, m₀, m, token, hp, hm, rfl, h0, ht⟩ := hfits
    dsimp only
    let way := (t.runner f).way
    let horizon := t.node.site.clock.horizon
    let copy := Handle.plain (m.loaded f.input token) false (some token)
    have hends := (t.runner f).regular_of_ends hp hm
      (Handle.finish_ends ht h0 d way horizon m f.run.root)
    have hmoves := Handle.finish_moves (way.advance_spared horizon) t.node.site.host d copy
    generalize copy.finish t.node.site.host d (way.advance horizon) = finished at hends hmoves ⊢
    split
    · exact h
    · have hsettled := Runner.settle_regular hends { t.node.site with host := finished.host }
      obtain ⟨metrics, hsite⟩ :=
        Site.settle_eq { t.node.site with host := finished.host } finished.result
      unfold settle
      dsimp only
      rw [hsite]
      have hgoes := Goes.at_host h.node finished.host metrics
      refine h.onTask hi hgoes ⟨hsound.ready,
        fun o ho => (hsound.run o ho).carried hgoes.later hgoes.recalls,
        fun o ho => .inl ((hsettled o ho).recalled hgoes.recalls)⟩ ?_
      rw [hf]
      exact hmoves.leavesOthers.frame t.node.handles
  | _ => exact h

theorem deliver_sound (h : t.IsSound late) (hi : t.tasks[i]? = some f) (looks : Nat) :
    (t.handle i f (.deliver looks)).IsSound late := by
  have hsound := h.tasks i f hi
  have hfits := hsound.fits
  unfold handle
  unfold Task.Fits at hfits
  cases hs : f.stage with
  | ended result =>
    have hf : f.handles = [] := Task.handles_eq_nil (by rw [Task.hasWorker, hs])
    rw [hs] at hfits
    have hrun := Runner.deliver_ends hsound.run t.node.site looks hfits
    have hroot := Runner.deliver_root t.node.site f.run looks result
    obtain ⟨metrics, hsite⟩ := Runner.deliver_site t.node.site f.run looks result
    dsimp only
    rw [hsite]
    have hgoes := Goes.at_host h.node t.node.site.host metrics
    refine h.onTask hi hgoes ⟨hsound.ready, ?_, trivial⟩ ?_
    · unfold Task.Allows
      dsimp only
      rw [hroot]
      exact fun o ho => (hrun o ho).carried hgoes.later hgoes.recalls
    · rw [hf]
      exact .refl _ _
  | _ => exact h

theorem close_sound (h : t.IsSound late) (hi : t.tasks[i]? = some f) :
    (t.handle i f .close).IsSound late := by
  have hsound := h.tasks i f hi
  refine h.onTask hi (.refl h.node) ⟨hsound.ready, ?_, ?_⟩ (.refl _ _)
  · unfold Task.Allows
    dsimp only
    rw [Run.close_root]
    exact hsound.run.close (.inl (.cancelled _ _ _))
  · have hfits := hsound.fits
    unfold Task.Fits Task.Allows at hfits ⊢
    dsimp only
    rw [Run.close_root]
    exact hfits

theorem handle_sound (h : t.IsSound late) (hi : t.tasks[i]? = some f) (happening : Happening)
    (hlate : t.Overtaken i → late i) : (t.handle i f happening).IsSound late := by
  cases happening with
  | look => exact look_sound h hi
  | ask => exact ask_sound h hi
  | hear => exact hear_sound h hi
  | timeOut => exact timeOut_sound h hi
  | acquire => exact acquire_sound h hi hlate
  | work d => exact work_sound h hi d
  | deliver looks => exact deliver_sound h hi looks
  | close => exact close_sound h hi

/-! ## Everything else -/

theorem IsSound.add (h : t.IsSound late) (hf : ∀ late, f.IsSound t.node late)
    (hhandles : f.handles = []) : IsSound late { t with tasks := t.tasks ++ [f] } := by
  refine ⟨h.node, h.held, ?_, fun i g hi => ?_⟩
  · dsimp only
    rw [List.flatMap_append, List.flatMap_singleton, hhandles, List.append_nil]
    exact h.balanced
  · rw [List.getElem?_append] at hi
    split at hi
    · exact h.tasks i g hi
    · obtain rfl := List.mem_singleton.1 (List.mem_of_getElem? hi)
      exact hf _

theorem launch_sound (h : t.IsSound late) {kind : Runner.Kind}
    (hk : (t.node.runner kind).IsReady) (root : Digest) (x : Input) :
    IsSound late { t with
      node := (t.node.launch kind root x).2
      tasks := t.tasks ++
        [{ kind, input := x, run := (t.node.launch kind root x).1
           wasStarted := (t.node.runner kind).isStarted }] } := by
  have hlaunched := h.onNode
    (.at_host h.node t.node.site.host t.node.site.metrics.recordLaunch)
    (.of_site fun hs => .refl _ hs)
  refine hlaunched.add (fun _ => ⟨fun hn => ?_, (fun _ ho => nomatch ho), trivial⟩) rfl
  dsimp only at hn ⊢
  rw [runner_withSite] at hn
  exact hk hn

theorem changeRunner_sound (h : t.IsSound late) (kind : Runner.Kind) {f : Runner → Runner}
    (hf : ∀ r : Runner, r.Later (f r)) :
    IsSound late { t with node := t.node.changeRunner kind f } := by
  have hlater : t.node.Later (t.node.changeRunner kind f) := by
    rintro (_ | _)
    · cases kind with
      | interpreter => exact hf _
      | native => exact .refl _
    · cases hn : t.node.native with
      | none =>
        cases kind with
        | interpreter => simpa [Node.runner, changeRunner, hn] using hf t.node.interpreter
        | native => simpa [Node.runner, changeRunner, hn] using .refl t.node.interpreter
      | some r =>
        cases kind with
        | interpreter => simpa [Node.runner, changeRunner, hn] using .refl r
        | native => simpa [Node.runner, changeRunner, hn] using hf r
  have hsame : (t.node.changeRunner kind f).site = t.node.site ∧
      (t.node.changeRunner kind f).handles = t.node.handles ∧
      (t.node.changeRunner kind f).isNative = t.node.isNative := by
    cases kind <;> exact ⟨rfl, rfl, rfl⟩
  obtain ⟨hsite, hhandles, hnative⟩ := hsame
  have hwired := h.node.wired.later hlater fun hn => hnative.symm.trans hn
  refine h.onNode ⟨h.node.later hlater hwired (hsite ▸ h.node.site), hlater, ?_⟩ ?_
  · rw [hsite]
    exact .refl _
  · unfold Heeds
    rw [hsite, hhandles]
    exact .refl _ _

/-- Whatever happens, what is known of all tasks stays true, if those that are overtaken count as
late. -/
theorem step_sound (h : t.IsSound late) (e : Event) (hlate : ∀ i, t.Overtaken i → late i) :
    (t.step e).IsSound late := by
  cases e with
  | perform op =>
    unfold step
    dsimp only
    split
    · exact h.onNode (perform_goes h.node op) (perform_heeds h.node.site op)
    · exact h
  | choose =>
    refine ⟨h.node, ?_, h.balanced, h.tasks⟩
    rintro kind (_ | ⟨_, hk⟩)
    · exact h.node.wired.serving
    · exact h.held kind hk
  | launch kind root x =>
    unfold step
    dsimp only
    split
    · rename_i hk
      exact launch_sound h (h.held kind (List.contains_iff_mem.1 hk)) root x
    · exact h
  | on i happening =>
    unfold step
    dsimp only
    cases hi : t.tasks[i]? with
    | none => exact h
    | some f => exact handle_sound h hi happening (hlate i)
  | goOn pause n =>
    obtain ⟨hsite, hrecalls⟩ := Site.goOn_genuine h.node.site pause n
    have hheeds := (Site.outlastsRuns_leavesOthers t.node.site).goOn pause n
      fun hs => .refl _ hs
    exact h.onNode (.at_site h.node hsite hrecalls) (.of_site hheeds)
  | cancel kind =>
    exact changeRunner_sound h kind fun r => ⟨rfl, rfl, id, fun _ => rfl, fun _ _ => rfl⟩
  | shut kind =>
    refine changeRunner_sound h kind fun r => ?_
    split
    · rename_i hstopped
      exact ⟨rfl, rfl, id, id, fun _ _ => hstopped⟩
    · exact .refl r
  | store files =>
    exact h.onNode (.at_host h.node { t.node.site.host with files } t.node.site.metrics)
      (.of_site fun hs => .refl _ hs)

theorem steps_sound (h : t.IsSound late) (events : List Event)
    (hlate : ∀ before, before <+: events → ∀ i, (t.steps before).Overtaken i → late i) :
    (t.steps events).IsSound late := by
  induction events generalizing t with
  | nil => exact h
  | cons e events ih =>
    have hstep := step_sound h e (hlate [] (List.nil_prefix))
    exact ih hstep fun before hbefore =>
      hlate (e :: before) (List.cons_prefix_cons.2 ⟨rfl, hbefore⟩)

/-- A new node is as it should be, and nobody has anything there. -/
theorem isSound_new {config : Config} {place : Place} {reports : Reports}
    (h : create config place reports = .ok n) (hb : place.backend.IsReference)
    (late : Nat → Prop) : IsSound late { node := n } := by
  have hnew := isNew_of_create h
  obtain ⟨locator, hsite⟩ := hnew.site
  refine ⟨⟨wired_of_create h, fun kind hclosed => ?_, ?_⟩,
    fun _ hk => absurd hk List.not_mem_nil, ?_, fun _ _ hf => nomatch hf⟩
  · rw [hnew.pool kind] at hclosed
    cases hclosed
  · rw [hsite]
    exact Site.genuine_ofFiles hb place.clock locator config.machine place.files
  · have hhandles : n.handles = [] := by
      unfold Node.handles
      rw [hnew.sessions]
      rfl
    dsimp only
    rw [hhandles, hsite]
    exact ⟨fun _ => rfl, fun _ hx => absurd hx List.not_mem_nil⟩

end Concurrent

/-! ## All runs -/

variable {config : Config} {place : Place} {reports : Reports} {n : Node}

/-- Take a new node with the reference engine, and let anything happen there in any order: runs are
launched with runners that were given out, worked on step by step and closed, the node is started,
asked and stopped, builds go on, and the files change. Then the outcome of a run, if it has one, is
the state, one of the two faults of a halted machine, a build of its module root that failed,
content that its input does not hold, or that it was cancelled. Only a machine of the program at its
module root that goes on for as many steps as can be asked for is told to be left while it still
ran, and only a task that was overtaken is told that its pool is closed. So it is with all runs in
flight, and with those that anything that can be asked next tells of. -/
theorem runs_end_regularly (h : create config place reports = .ok n)
    (hb : place.backend.IsReference) (events : List Concurrent.Event) :
    let t := Concurrent.steps { node := n } events
    (∀ (i : Nat) (f : Task), t.tasks[i]? = some f →
      f.run.EndsRegularly t.node.site f.run.root f.input ∨
        f.run.outcome? = some (.error (t.node.poolClosed f.kind)) ∧
          ∃ before, before <+: events ∧ (Concurrent.steps { node := n } before).Overtaken i) ∧
      ∀ op, t.holds op = true →
        (t.node.perform op).1.IsRegular (t.node.perform op).2.site op := by
  intro t
  let late (i : Nat) : Prop :=
    ∃ before, before <+: events ∧ (Concurrent.steps { node := n } before).Overtaken i
  have hsound : t.IsSound late :=
    Concurrent.steps_sound (Concurrent.isSound_new h hb late) events
      fun before hbefore i hovertaken => ⟨before, hbefore, hovertaken⟩
  refine ⟨fun i f hi => ?_, fun op hop => ?_⟩
  · have hends := (hsound.tasks i f hi).run
    cases ho : f.run.outcome? with
    | none => exact .inl ⟨rfl, fun o ho' => by rw [ho] at ho'; cases ho'⟩
    | some o =>
      rcases hends o ho with hregular | ⟨hlate, rfl⟩
      · refine .inl ⟨rfl, fun o' ho' => ?_⟩
        rw [ho] at ho'
        cases ho'
        exact hregular
      · exact .inr ⟨rfl, hlate⟩
  · apply perform_regular hsound.node
    cases op with
    | runBy kind root x => exact hsound.held kind (List.contains_iff_mem.1 hop)
    | _ => trivial

/-- Two runs of the reader with the native runner. Someone stops the runner when one of them is on
the worker and the other one waits for it. -/
def readerTasks : List Concurrent.Event :=
  [.perform .start, .choose, .launch .native reader.root readerInput,
    .launch .native reader.root readerInput, .on 0 .look, .on 0 .ask, .on 1 .look, .on 1 .ask,
    .goOn none 0, .on 0 .hear, .on 1 .hear, .on 0 .look, .on 0 .acquire, .on 1 .look,
    .on 1 .acquire, .cancel .native, .shut .native, .on 0 (.work .never), .on 1 .look,
    .on 1 .acquire, .on 1 (.deliver 0), .on 0 (.deliver 0)]

/-- The run on the worker finishes, and the other one is cancelled, although its pool is closed. -/
theorem runs_end_regularly_on_reader :
    let t : Concurrent := Concurrent.steps { node := readerNode } readerTasks
    t.tasks.map (fun f => f.run.outcome?.map (Except.map GlobalState.batch)) =
        [some (.ok 1), some (.error .cancelled)] ∧
      (∀ f ∈ t.tasks, f.run.EndsRegularly t.node.site f.run.root f.input) ∧
      let next : Reply × Node := t.node.perform (.runBy .native reader.root readerInput)
      ∃ run, next.1 = .run run ∧ run.EndsRegularly next.2.site reader.root readerInput := by
  have hends : (Concurrent.steps { node := readerNode } readerTasks).tasks.map
        (fun f => f.run.outcome?.map (Except.map GlobalState.batch)) =
        [some (.ok 1), some (.error .cancelled)] ∧
      (Concurrent.steps { node := readerNode } readerTasks).holds
        (.runBy .native reader.root readerInput) = true := by
    decide +kernel
  obtain ⟨houtcomes, hheld⟩ := hends
  have hall := runs_end_regularly create_reader referenceBackend_isReference readerTasks
  -- from here on it does not matter what happened
  generalize Concurrent.steps { node := readerNode } readerTasks = t at houtcomes hheld hall ⊢
  obtain ⟨hruns, hnext⟩ := hall
  refine ⟨houtcomes, fun f hf => ?_, hnext (.runBy .native reader.root readerInput) hheld⟩
  obtain ⟨i, hi⟩ := List.getElem?_of_mem hf
  refine (hruns i f hi).resolve_right fun ⟨hclosed, _⟩ => ?_
  -- neither of the two was told so
  have hmem : f.run.outcome?.map (Except.map GlobalState.batch) ∈
      [some (.ok 1), some (.error .cancelled)] := houtcomes ▸ List.mem_map_of_mem hf
  rw [hclosed] at hmem
  simp [Except.map, poolClosed] at hmem

/-- A native run of the reader. The node is stopped after its task saw that it was not cancelled,
and before it looks for a worker. -/
def readerOvertaken : List Concurrent.Event :=
  [.perform .start, .choose, .launch .native reader.root readerInput, .on 0 .look, .on 0 .ask,
    .goOn none 0, .on 0 .hear, .on 0 .look, .perform .stop, .on 0 .acquire, .on 0 (.deliver 0)]

/-- Stopping a node, which cancels all runs before it closes the pools, can tell one of them that
its pool is closed. -/
theorem run_told_pool_closed_on_reader :
    create readerConfig readerPlace { capacity := 0 } = .ok readerNode ∧
      ∃ f, (Concurrent.steps { node := readerNode } readerOvertaken).tasks[0]? = some f ∧
        f.run.outcome? = some (.error (.engineUnavailable "jit worker pool is closed")) ∧
        ∀ site, ¬ f.run.EndsRegularly site f.run.root f.input := by
  have hends : ((Concurrent.steps { node := readerNode } readerOvertaken).tasks[0]?.bind
      fun f => f.run.outcome?) =
        some (.error (.engineUnavailable "jit worker pool is closed")) := by
    decide +kernel
  obtain ⟨f, hf, houtcome⟩ := Option.bind_eq_some_iff.1 hends
  refine ⟨create_reader, f, hf, houtcome, fun site hregular => ?_⟩
  rcases hregular.outcome _ houtcome with h | ⟨-, h⟩ <;> cases h

end Rerun.Node
