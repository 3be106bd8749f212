import Rerun.Proofs.Cache.Move
import Rerun.Proofs.Site.Grown
import Rerun.Proofs.Site.Reach
import Rerun.Proofs.Site.Yields
import Rerun.Site.History

/-!
# What an event comes to

With the reference engine an event at a site comes to one of a few things: nothing but a count, a
build that is started or goes on, or a build that ends in one of three ways (`Turn`, `step_turn`).
Whatever happens, the walks, the cache, the files and the counters of a site agree
(`Orderly.run`).
-/

namespace Rerun

namespace Site

open MachinePair (firstWalk frozen beginning)

/-! ## Walks -/

/-- The deadline that a build gets at an open site. -/
def openDeadline (s : Site) : Deadline := { limit := s.buildLimit }

/-- Whether a build of a program has to walk with it. -/
def HasToWalk (s : Site) (p : Program) : Prop :=
  beginning s.backend.name s.depot.files (s.depot.locator.machinePath p.root) p.root s.openDeadline
    s.host.files = .walking (firstWalk p (s.snapshotPath p.root) s.openDeadline)

/-- A program on its way to host input, as a build walks it. -/
def walkOf (s : Site) (p : Program) (m : Machine) (d : Deadline) : MachinePair.Walk :=
  { firstWalk p (s.snapshotPath p.root) d with hostIo := .plain m false none }

/-- A walk is on the way of a program that has to be walked with. -/
def OnCourse (s : Site) (w : MachinePair.Walk) : Prop :=
  ∃ p m d, s.HasToWalk p ∧ (Machine.ofProgram p).Ahead m ∧ w = s.walkOf p m d

/-- A site that came out of another one by what happened to its machines. -/
structure Orderly (s₀ s : Site) : Prop where
  backend : s.backend = s₀.backend
  clock : s.clock = s₀.clock
  locator : s.depot.locator = s₀.depot.locator
  names : s.depot.files = s₀.depot.files
  files : Files.Grown s₀.host.files s.host.files
  cache : s.depot.cache.Sound
  /-- There is one walk for a build at most. -/
  distinct : (s.depot.walks.map Prod.fst).Nodup
  walks : ∀ (n : Nat) w, s.depot.walks.lookup n = some w →
    s₀.OnCourse w ∧ s.depot.cache.IsInFlight n w.root
  failures : ∀ (n : Nat) root e, s.depot.cache.builds[n]? = some ⟨root, .ended (.error e)⟩ →
    ∃ reason, e = .buildFailed root reason
  counted : s.metrics.builds = UInt64.ofNat s.depot.cache.endedCount
  countedFailures : s.metrics.buildFailures = UInt64.ofNat s.depot.cache.failures

variable {s₀ s s' : Site} {root : Digest} {n : Nat}

/-- A site of some files is in order before anything happened. -/
theorem orderly_ofFiles (backend : Backend) (clock : Clock) (locator : Locator)
    (names : Config.MachineFiles) (files : Files) :
    Orderly (ofFiles backend clock locator names files)
      (ofFiles backend clock locator names files) where
  backend := rfl
  clock := rfl
  locator := rfl
  names := rfl
  files := .refl files
  cache := .new
  distinct := List.nodup_nil
  walks n w h := by
    have hnone : (ofFiles backend clock locator names files).depot.walks.lookup n = none := rfl
    rw [hnone] at h
    cases h
  failures n root e h := by
    have hnone : (ofFiles backend clock locator names files).depot.cache.builds[n]? = none :=
      List.getElem?_nil
    rw [hnone] at h
    cases h
  counted := by simp [ofFiles, Cache.endedCount]
  countedFailures := by simp [ofFiles]

theorem Orderly.paths (h : Orderly s₀ s) (root : Digest) :
    s.imagePath root = s₀.imagePath root ∧ s.snapshotPath root = s₀.snapshotPath root := by
  unfold imagePath snapshotPath
  rw [h.locator, h.names]
  exact ⟨rfl, rfl⟩

theorem Orderly.openDeadline_eq (h : Orderly s₀ s) : s.openDeadline = s₀.openDeadline := by
  unfold openDeadline buildLimit
  rw [h.names, h.clock]

/-! ## What keeps a site in order -/

theorem Orderly.withHost (h : Orderly s₀ s) {host : Host}
    (hf : Files.Grown s₀.host.files host.files) : Orderly s₀ { s with host } :=
  { h with files := hf }

/-- A request that is counted, or starts a build. -/
theorem Orderly.ask (h : Orderly s₀ s) (root : Digest) : Orderly s₀ (s.step (.ask root)) := by
  refine { h with cache := h.cache.move (Cache.request_move s.depot.cache root), walks := ?_,
                  failures := ?_, counted := ?_, countedFailures := ?_ }
  · intro k w hk
    obtain ⟨hcourse, hb⟩ := h.walks k w hk
    exact ⟨hcourse, Cache.getElem?_request hb root⟩
  · exact fun k r e hk => h.failures k r e (Cache.ended_of_request hk)
  · exact h.counted.trans (congrArg UInt64.ofNat (Cache.endedCount_request _ root).symm)
  · exact h.countedFailures.trans (congrArg UInt64.ofNat (Cache.request_builds _ root).2.symm)

theorem distinct_others (h : (s.depot.walks.map Prod.fst).Nodup) (n : Nat) :
    ((s.depot.walks.filter (·.1 ≠ n)).map Prod.fst).Nodup :=
  h.sublist (List.filter_sublist.map Prod.fst)

/-- A build is on its way. -/
theorem Orderly.walking (h : Orderly s₀ s) {w : MachinePair.Walk}
    (hb : s.depot.cache.IsInFlight n w.root) (hw : s₀.OnCourse w) (looks : Nat) :
    Orderly s₀ (s.reach n w.root looks (.walking w)) := by
  refine { h with distinct := ?_, walks := ?_ }
  · show ((s.depot.walks.filter (·.1 ≠ n) ++ [(n, w)]).map Prod.fst).Nodup
    rw [List.map_append, List.nodup_append]
    refine ⟨distinct_others h.distinct n, List.pairwise_singleton _ _, ?_⟩
    intro k hk k' hk'
    obtain ⟨x, hx, rfl⟩ := List.mem_map.1 hk
    have hne : x.1 ≠ n := by simpa using (List.mem_filter.1 hx).2
    rw [List.map_singleton, List.mem_singleton] at hk'
    rwa [hk']
  · intro k w' hk
    rw [lookup_reach] at hk
    by_cases hkn : k = n
    · rw [if_pos hkn] at hk
      cases hk
      exact ⟨hw, hkn ▸ hb⟩
    · rw [if_neg hkn] at hk
      exact h.walks k w' hk

/-- A build that was in flight is over. -/
theorem Orderly.settled (h : Orderly s₀ s) (hb : s.depot.cache.IsInFlight n root)
    {phase : Build.Phase MachinePair} (hp : phase.isInFlight = false)
    (he : ∀ e, phase = .ended (.error e) → ∃ reason, e = .buildFailed root reason)
    {metrics : Metrics}
    (hm : metrics.builds = s.metrics.builds + if phase.isEnded then 1 else 0)
    (hf : metrics.buildFailures = s.metrics.buildFailures + if phase.isFailure then 1 else 0) :
    Orderly s₀ { s with
      depot :=
        { s.depot with
          cache := s.depot.cache.settled n root phase
          walks := s.depot.walks.filter (·.1 ≠ n) }
      metrics } := by
  refine { h with cache := h.cache.settled hb hp, distinct := distinct_others h.distinct n,
                  walks := ?_, failures := ?_, counted := ?_, countedFailures := ?_ }
  · intro k w hk
    rw [lookup_walks_without] at hk
    by_cases hkn : k = n
    · rw [if_pos hkn] at hk
      cases hk
    · rw [if_neg hkn] at hk
      obtain ⟨hcourse, hbk⟩ := h.walks k w hk
      refine ⟨hcourse, ?_⟩
      unfold Cache.IsInFlight
      rw [Cache.getElem?_settled hb, if_neg hkn]
      exact hbk
  · intro k r e hk
    rw [Cache.getElem?_settled hb] at hk
    by_cases hkn : k = n
    · rw [if_pos hkn] at hk
      cases hk
      exact he e rfl
    · rw [if_neg hkn] at hk
      exact h.failures k r e hk
  · have hcount : (s.depot.cache.settled n root phase).endedCount =
        s.depot.cache.endedCount + if phase.isEnded then 1 else 0 :=
      Cache.countP_settled hb (·.phase.isEnded)
    rw [hm, hcount, h.counted, UInt64.ofNat_add]
    cases phase.isEnded <;> rfl
  · have hcount : (s.depot.cache.settled n root phase).failures =
        s.depot.cache.failures + if phase.isFailure then 1 else 0 := rfl
    rw [hf, hcount, h.countedFailures, UInt64.ofNat_add]
    cases phase.isFailure <;> rfl

/-- A build ended. -/
theorem Orderly.finish (h : Orderly s₀ s) (hb : s.depot.cache.IsInFlight n root) (looks : Nat)
    {outcome : Except Error MachinePair}
    (he : ∀ e, outcome = .error e → ∃ reason, e = .buildFailed root reason) :
    Orderly s₀ (s.finishBuild n looks outcome) := by
  unfold finishBuild
  rw [Cache.finish_inFlight hb]
  refine h.settled hb rfl ?_ rfl ?_
  · rintro e ⟨⟩
    exact he e rfl
  · unfold Metrics.recordBuild
    cases outcome with
    | ok pair => exact (UInt64.add_zero _).symm
    | error e => rfl

/-- A build was given up before it began. -/
theorem Orderly.drop (h : Orderly s₀ s) (hb : s.depot.cache.IsInFlight n root)
    (hw : s.depot.walks.lookup n = none) :
    Orderly s₀ { s with depot := { s.depot with cache := s.depot.cache.drop n } } := by
  have hwalks : s.depot.walks.filter (·.1 ≠ n) = s.depot.walks := by
    rw [List.filter_eq_self]
    intro x hx
    have hne := List.lookup_eq_none_iff.1 hw x hx
    simpa [ne_comm] using hne
  have hsettled := @Orderly.settled s₀ s root n h hb .dropped rfl nofun s.metrics
    (UInt64.add_zero _).symm (UInt64.add_zero _).symm
  rw [hwalks] at hsettled
  rw [h.cache.drop_inFlight hb]
  exact hsettled

/-! ## Closing -/

/-- The builds of some walks fail. -/
def abort (s : Site) (walks : List (Nat × MachinePair.Walk)) : Site :=
  walks.foldl (fun s (n, w) =>
    s.finishBuild n w.deadline.spent
      (.error (.buildFailed w.root (MachinePair.hostIoReason .cancelled)))) s

/-- What is left of builds that were aborted. -/
structure Aborted (walks : List (Nat × MachinePair.Walk)) (s s' : Site) : Prop where
  host : s'.host = s.host
  grows : s.depot.cache.Grows s'.depot.cache
  others : ∀ n, n ∉ walks.map Prod.fst → s'.depot.cache.builds[n]? = s.depot.cache.builds[n]?
  failed : ∀ x ∈ walks, ∃ e, s'.depot.cache.builds[x.1]? = some ⟨x.2.root, .ended (.error e)⟩
  gone : ∀ root, s.depot.cache.entry? root = none → s'.depot.cache.entry? root = none
  left : ∀ x ∈ walks, s'.depot.cache.entry? x.2.root = none

theorem Orderly.abort (h : Orderly s₀ s) {walks : List (Nat × MachinePair.Walk)}
    (hb : ∀ x ∈ walks, s.depot.cache.IsInFlight x.1 x.2.root)
    (hd : (walks.map Prod.fst).Nodup) :
    Orderly s₀ (s.abort walks) ∧ Aborted walks s (s.abort walks) := by
  induction walks generalizing s with
  | nil =>
    exact ⟨h, rfl, .refl _, fun _ _ => rfl, fun x hx => absurd hx List.not_mem_nil, fun _ h => h,
      fun x hx => absurd hx List.not_mem_nil⟩
  | cons x walks ih =>
    obtain ⟨n, w⟩ := x
    obtain ⟨hn, hd⟩ := List.nodup_cons.1 hd
    have hbn : s.depot.cache.IsInFlight n w.root := hb (n, w) (.head _)
    let e : Error := .buildFailed w.root (MachinePair.hostIoReason .cancelled)
    let next := s.finishBuild n w.deadline.spent (.error e)
    have hcache : next.depot.cache = s.depot.cache.settled n w.root (.ended (.error e)) :=
      Cache.finish_inFlight hbn _
    have hnext : Orderly s₀ next := by
      refine h.finish hbn _ ?_
      rintro _ ⟨⟩
      exact ⟨_, rfl⟩
    have hbuilds : ∀ k : Nat, k ≠ n → next.depot.cache.builds[k]? = s.depot.cache.builds[k]? := by
      intro k hk
      rw [hcache, Cache.getElem?_settled hbn, if_neg hk]
    have hentry : ∀ root, next.depot.cache.entry? root =
        if root = w.root then none else s.depot.cache.entry? root := by
      intro root
      rw [hcache, Cache.entry?_settled]
      rfl
    have hrest : ∀ x ∈ walks, next.depot.cache.IsInFlight x.1 x.2.root := by
      intro x hx
      have hne : x.1 ≠ n := by
        rintro rfl
        exact hn (List.mem_map.2 ⟨x, hx, rfl⟩)
      unfold Cache.IsInFlight
      rw [hbuilds x.1 hne]
      exact hb x (.tail _ hx)
    have hmove : s.depot.cache.Move next.depot.cache := hcache ▸ .settled hbn rfl
    obtain ⟨horderly, hall⟩ := ih hnext hrest hd
    refine ⟨horderly, hall.host, (hmove.grows h.cache).trans hall.grows, fun k hk => ?_,
      fun x hx => ?_, fun root hroot => ?_, fun x hx => ?_⟩
    · rw [List.map_cons, List.mem_cons, not_or] at hk
      exact (hall.others k hk.2).trans (hbuilds k hk.1)
    · obtain rfl | hx := List.mem_cons.1 hx
      · refine ⟨e, (hall.others n hn).trans ?_⟩
        rw [hcache, Cache.getElem?_settled hbn, if_pos rfl]
      · exact hall.failed x hx
    · refine hall.gone root ?_
      rw [hentry]
      split
      · rfl
      · exact hroot
    · obtain rfl | hx := List.mem_cons.1 hx
      · exact hall.gone w.root ((hentry w.root).trans (if_pos rfl))
      · exact hall.left x hx

/-- A depot that is closed has no builds on their way any more. -/
theorem Orderly.close (h : Orderly s₀ s) :
    Orderly s₀ s.closeDepot ∧ Aborted s.depot.walks s s.closeDepot := by
  have hclosed : Orderly s₀ { s with depot := { s.depot with isClosed := true } } := { h with }
  have hflight : ∀ x ∈ s.depot.walks, s.depot.cache.IsInFlight x.1 x.2.root := fun x hx =>
    (h.walks x.1 x.2 (Lookup.eq_some_of_mem h.distinct hx)).2
  obtain ⟨horderly, haborted⟩ := hclosed.abort hflight h.distinct
  exact ⟨horderly, haborted.host, haborted.grows, haborted.others, haborted.failed, haborted.gone,
    haborted.left⟩

/-! ## Turns -/

/-- Whether there is nothing that an event could happen to. -/
def IsIdle (s : Site) : Event → Prop
  | .ask _ | .close => False
  | .start n | .drop n => s.waiting? n = none
  | .goOn _ n => s.depot.walks.lookup n = none

/-- What an event comes to. -/
inductive Turn (s₀ s : Site) : Event → Site → Prop where
  | still {event : Event} (idle : s.IsIdle event) : Turn s₀ s event s
  | asked (root : Digest) : Turn s₀ s (.ask root) (s.step (.ask root))
  /-- A build begins to walk. -/
  | began {n : Nat} {p : Program} (waiting : s.waiting? n = some p.root)
      (isOpen : s.depot.isClosed = false) (hasTo : s.HasToWalk p) :
      Turn s₀ s (.start n)
        (s.reach n p.root 0 (.walking (s.walkOf p (.ofProgram p) s.openDeadline)))
  /-- A build takes over a snapshot. -/
  | restored {n : Nat} {root : Digest} {p : Program} {m : Machine}
      (waiting : s.waiting? n = some root) (isOpen : s.depot.isClosed = false)
      (begins : beginning s.backend.name s.depot.files (s.depot.locator.machinePath root) root
        s.openDeadline s.host.files = .ended (.ok (frozen p m))) :
      Turn s₀ s (.start n) (s.finishBuild n 0 (.ok (frozen p m)))
  /-- A build fails as it begins. -/
  | refused {n : Nat} {root : Digest} {reason : String} (waiting : s.waiting? n = some root) :
      Turn s₀ s (.start n) (s.finishBuild n 0 (.error (.buildFailed root reason)))
  /-- A build goes on walking. -/
  | went {pause : Option Nat} {n looks : Nat} {p : Program} {m m' : Machine} {d d' : Deadline}
      (walk : s.depot.walks.lookup n = some (s.walkOf p m d)) (ahead : m.Ahead m') :
      Turn s₀ s (.goOn pause n) (s.reach n p.root looks (.walking (s.walkOf p m' d')))
  /-- A build gets to the end of the way, and leaves a snapshot if it can. -/
  | arrived {pause : Option Nat} {n looks : Nat} {p : Program} {m m' : Machine} {d : Deadline}
      {files : Files} (walk : s.depot.walks.lookup n = some (s.walkOf p m d))
      (ahead : m.Ahead m') (waits : m'.waits = true)
      (saved : m'.save s.host.files (s.snapshotPath p.root) = .ok files ∨
        (∃ e, m'.save s.host.files (s.snapshotPath p.root) = .error e) ∧ files = s.host.files) :
      Turn s₀ s (.goOn pause n)
        ({ s with host := { s.host with files } }.finishBuild n looks (.ok (frozen p m')))
  /-- A build runs out of time. -/
  | stopped {pause : Option Nat} {n looks : Nat} {p : Program} {m : Machine} {d : Deadline}
      {reason : String} (walk : s.depot.walks.lookup n = some (s.walkOf p m d)) :
      Turn s₀ s (.goOn pause n) (s.finishBuild n looks (.error (.buildFailed p.root reason)))
  | dropped {n : Nat} {root : Digest} (waiting : s.waiting? n = some root) :
      Turn s₀ s (.drop n) { s with depot := { s.depot with cache := s.depot.cache.drop n } }
  | closed : Turn s₀ s .close s.closeDepot

theorem waiting?_eq_some (h : s.waiting? n = some root) :
    s.depot.cache.IsInFlight n root ∧ s.depot.walks.lookup n = none := by
  unfold waiting? at h
  split at h
  · rename_i hb hw
    cases h
    exact ⟨hb, hw⟩
  · cases h

theorem Orderly.walkOf_eq (h : Orderly s₀ s) : s.walkOf = s₀.walkOf := by
  funext p m d
  unfold walkOf
  rw [(h.paths p.root).2]

theorem Orderly.hasToWalk (h : Orderly s₀ s) {p : Program} (hp : s.HasToWalk p) :
    s₀.HasToWalk p := by
  unfold HasToWalk at hp ⊢
  rw [h.backend, h.names, h.locator, h.openDeadline_eq, (h.paths p.root).2] at hp
  exact MachinePair.beginning_walking_of_grown h.files hp

end Site

namespace MachinePair

variable {name : String} {files : Config.MachineFiles} {directory : String} {root : Digest}
  {d : Deadline} {fs : Files}

/-- A build that fails at once tells why. -/
theorem beginning_failed {f : Failure}
    (h : beginning name files directory root d fs = .ended (.error f)) :
    ∃ reason, f = .error (.buildFailed root reason) := by
  unfold beginning at h
  dsimp only at h
  split at h
  · cases h
    exact ⟨_, rfl⟩
  · split at h
    · cases h
      exact ⟨_, rfl⟩
    · split at h
      · cases h
        exact ⟨_, rfl⟩
      · split at h
        · cases h
          exact ⟨_, rfl⟩
        · split at h
          · split at h
            · cases h
              exact ⟨_, rfl⟩
            · cases h
          · cases h

theorem beginning_expired (hd : d.isExpired = true) :
    beginning name files directory root d fs =
      .ended (fail (.buildFailed root "loader is closed")) := by
  unfold beginning
  rw [hd]
  rfl

end MachinePair

namespace Site

open MachinePair (firstWalk frozen beginning)

variable {s₀ s s' : Site} {root : Digest} {n : Nat}

theorem buildDeadline_open (h : s.depot.isClosed = false) : s.buildDeadline = s.openDeadline := by
  unfold buildDeadline
  rw [h]
  rfl

theorem buildDeadline_closed (h : s.depot.isClosed = true) : s.buildDeadline.isExpired = true := by
  unfold buildDeadline
  rw [h]
  rfl

theorem step_ask (he : s.depot.cache.entry? root = none) : s.step (.ask root) =
    { s with depot := { s.depot with cache := s.depot.cache.started root } } := by
  unfold step
  dsimp only
  rw [Cache.request_new he]

theorem step_start (h : s.waiting? n = some root) : s.step (.start n) = s.startBuild n root := by
  unfold step
  dsimp only
  rw [h]

theorem step_start_over (h : s.waiting? n = none) : s.step (.start n) = s := by
  unfold step
  dsimp only
  rw [h]

theorem step_drop (h : s.waiting? n = some root) :
    s.step (.drop n) = { s with depot := { s.depot with cache := s.depot.cache.drop n } } := by
  unfold step
  dsimp only
  rw [h]

theorem step_drop_over (h : s.waiting? n = none) : s.step (.drop n) = s := by
  unfold step
  dsimp only
  rw [h]

/-- How a build begins with the reference engine. -/
theorem startBuild_reference (hr : s.backend.IsReference) (n : Nat) (root : Digest) :
    s.startBuild n root = s.reach n root 0 (beginning s.backend.name s.depot.files
      (s.depot.locator.machinePath root) root s.buildDeadline s.host.files) := by
  unfold startBuild
  rw [MachinePair.start_reference hr]

theorem start_turn (hr : s.backend.IsReference) (n : Nat) :
    Turn s₀ s (.start n) (s.step (.start n)) := by
  cases hw : s.waiting? n with
  | none =>
    rw [step_start_over hw]
    exact .still hw
  | some root =>
    rw [step_start hw, startBuild_reference hr]
    cases hc : s.depot.isClosed with
    | true =>
      rw [MachinePair.beginning_expired (buildDeadline_closed hc)]
      exact .refused hw
    | false =>
      rw [buildDeadline_open hc]
      cases hb : beginning s.backend.name s.depot.files (s.depot.locator.machinePath root) root
          s.openDeadline s.host.files with
      | walking w =>
        obtain ⟨p, -, rfl, rfl⟩ := MachinePair.beginning_walking hb
        exact .began hw hc hb
      | ended result =>
        cases result with
        | ok pair =>
          obtain ⟨p, m, -, -, -, rfl⟩ := MachinePair.beginning_ended hb
          exact .restored hw hc hb
        | error f =>
          obtain ⟨reason, rfl⟩ := MachinePair.beginning_failed hb
          exact .refused hw

theorem goOn_turn (h : Orderly s₀ s) (pause : Option Nat) (n : Nat) :
    Turn s₀ s (.goOn pause n) (s.step (.goOn pause n)) := by
  show Turn s₀ s (.goOn pause n) (s.goOn pause n).2
  unfold goOn
  cases hl : s.depot.walks.lookup n with
  | none => exact .still hl
  | some w =>
    obtain ⟨⟨p, m, d, -, -, rfl⟩, -⟩ := h.walks n w hl
    rw [← h.walkOf_eq] at hl ⊢
    have hgoes := (s.walkOf p m d).goOn_plain rfl s.clock.horizon pause s.host
    dsimp only
    generalize (s.walkOf p m d).goOn s.clock.horizon pause s.host = r at hgoes
    obtain ⟨stage, looks, host⟩ := r
    dsimp only at hgoes ⊢
    obtain ⟨m', d', ha, rfl, -, rfl⟩ | ⟨m', ha, hw, rfl, hsaved⟩ | ⟨-, ⟨reason, rfl⟩, rfl⟩ := hgoes
    · exact .went hl ha
    · obtain ⟨e, he, rfl⟩ | ⟨fs, hfs, rfl⟩ := hsaved
      · exact .arrived hl ha hw (.inr ⟨⟨e, he⟩, rfl⟩)
      · exact .arrived hl ha hw (.inl hfs)
    · exact .stopped hl

/-- Every event comes to one of the turns. -/
theorem step_turn (hr : s₀.backend.IsReference) (h : Orderly s₀ s) (event : Event) :
    Turn s₀ s event (s.step event) := by
  cases event with
  | ask root => exact .asked root
  | start n => exact start_turn (h.backend ▸ hr) n
  | goOn pause n => exact goOn_turn h pause n
  | drop n =>
    cases hw : s.waiting? n with
    | none =>
      rw [step_drop_over hw]
      exact .still hw
    | some root =>
      rw [step_drop hw]
      exact .dropped hw
  | close => exact .closed

theorem walkOf_injective {p q : Program} {m m' : Machine} {d d' : Deadline}
    (h : s.walkOf p m d = s.walkOf q m' d') : p = q ∧ m = m' := by
  have hz := congrArg MachinePair.Walk.zeroStep h
  have hi := congrArg MachinePair.Walk.hostIo h
  simp only [walkOf, firstWalk, Handle.plain, Instance.plain, Machine.ofProgram] at hz hi
  exact ⟨by simpa using hz, by simpa using hi⟩

theorem Orderly.walk_inFlight (h : Orderly s₀ s) {p : Program} {m : Machine} {d : Deadline}
    (hl : s.depot.walks.lookup n = some (s.walkOf p m d)) :
    s.depot.cache.IsInFlight n p.root ∧ s₀.HasToWalk p ∧ (Machine.ofProgram p).Ahead m := by
  obtain ⟨⟨q, m', d', hq, ha, hw⟩, hb⟩ := h.walks n _ hl
  rw [h.walkOf_eq] at hw
  obtain ⟨rfl, rfl⟩ := walkOf_injective hw
  exact ⟨hb, hq, ha⟩

/-- Whatever an event comes to, a site stays in order. -/
theorem Turn.orderly {event : Event} (ht : Turn s₀ s event s') (h : Orderly s₀ s) :
    Orderly s₀ s' := by
  cases ht with
  | still => exact h
  | asked root => exact h.ask root
  | @began n p waiting isOpen hasTo =>
    refine h.walking (waiting?_eq_some waiting).1 ?_ 0
    exact ⟨p, _, _, h.hasToWalk hasTo, .here _, by rw [h.walkOf_eq]⟩
  | restored waiting isOpen begins => exact h.finish (waiting?_eq_some waiting).1 0 nofun
  | @refused n root reason waiting =>
    refine h.finish (waiting?_eq_some waiting).1 0 ?_
    rintro e ⟨⟩
    exact ⟨reason, rfl⟩
  | @went pause n looks p m m' d d' walk ahead =>
    obtain ⟨hb, hp, ha⟩ := h.walk_inFlight walk
    refine h.walking hb ?_ looks
    exact ⟨p, m', d', hp, ha.trans ahead, by rw [h.walkOf_eq]⟩
  | @arrived pause n looks p m m' d files walk ahead waits saved =>
    obtain ⟨hb, hp, ha⟩ := h.walk_inFlight walk
    have hgrown : Files.Grown s₀.host.files files := by
      obtain hsave | ⟨-, rfl⟩ := saved
      · obtain ⟨-, hfile, -⟩ := MachinePair.beginning_eq_walking_iff.1 hp
        rw [(h.paths p.root).2] at hsave
        exact h.files.write hfile (MachinePair.files_of_save hsave)
      · exact h.files
    have hhost : Orderly s₀ { s with host := { s.host with files } } := h.withHost hgrown
    exact hhost.finish hb looks nofun
  | @stopped pause n looks p m d reason walk =>
    refine h.finish (h.walk_inFlight walk).1 looks ?_
    rintro e ⟨⟩
    exact ⟨reason, rfl⟩
  | dropped waiting => exact h.drop (waiting?_eq_some waiting).1 (waiting?_eq_some waiting).2
  | closed => exact h.close.1

theorem Orderly.step (hr : s₀.backend.IsReference) (h : Orderly s₀ s) (event : Event) :
    Orderly s₀ (s.step event) :=
  (step_turn hr h event).orderly h

/-- Whatever happens, a site stays in order. -/
theorem Orderly.run (hr : s₀.backend.IsReference) (h : Orderly s₀ s) (events : List Event) :
    Orderly s₀ (s.run events) := by
  induction events generalizing s with
  | nil => exact h
  | cons event events ih => exact ih (h.step hr event)

end Site

end Rerun
