import Rerun.Proofs.Site.Turn

/-!
# The course of a build

A build that ended stays as it is, and a build that walks goes on or ends, whatever happens to
others (`Course.run`). So whoever is told of a pair gets what was built from the files that there
were when the build began (`answers_built`).
-/

namespace Rerun.Site

open MachinePair (firstWalk frozen beginning)

variable {s₀ s s' : Site} {root : Digest} {n : Nat}

/-! ## The builds and their walks through a turn -/

theorem finishBuild_cache_grows (hc : s.depot.cache.Sound) (hb : s.depot.cache.IsInFlight n root)
    (looks : Nat) (outcome : Except Error MachinePair) :
    s.depot.cache.Grows (s.finishBuild n looks outcome).depot.cache := by
  show s.depot.cache.Grows (s.depot.cache.finish n outcome)
  rw [Cache.finish_inFlight hb]
  exact (Cache.Move.settled hb rfl).grows hc

/-- What was known of the builds before an event is known after it. -/
theorem Turn.grows {event : Event} (ht : Turn s₀ s event s') (h : Orderly s₀ s) :
    s.depot.cache.Grows s'.depot.cache := by
  cases ht with
  | still idle => exact .refl _
  | asked root => exact (Cache.request_move s.depot.cache root).grows h.cache
  | began => exact .refl _
  | restored waiting => exact finishBuild_cache_grows h.cache (waiting?_eq_some waiting).1 0 _
  | refused waiting => exact finishBuild_cache_grows h.cache (waiting?_eq_some waiting).1 0 _
  | went => exact .refl _
  | @arrived pause n looks p m m' d files walk =>
    exact @finishBuild_cache_grows { s with host := { s.host with files } } p.root n h.cache
      (h.walk_inFlight walk).1 looks _
  | stopped walk => exact finishBuild_cache_grows h.cache (h.walk_inFlight walk).1 _ _
  | @dropped n root waiting =>
    have hb := (waiting?_eq_some waiting).1
    show s.depot.cache.Grows (s.depot.cache.drop n)
    rw [h.cache.drop_inFlight hb]
    exact (Cache.Move.settled hb rfl).grows h.cache
  | closed => exact h.close.2.grows

/-- A build that ended stays as it is. -/
theorem Turn.ended_stays {event : Event} (ht : Turn s₀ s event s') (h : Orderly s₀ s)
    {o : Except Error MachinePair} (hn : s.depot.cache.builds[n]? = some ⟨root, .ended o⟩) :
    s'.depot.cache.builds[n]? = some ⟨root, .ended o⟩ := by
  obtain ⟨phase, hphase, hkept⟩ := (ht.grows h).builds n root _ hn
  rw [hkept rfl] at hphase
  exact hphase

/-! ## The course of one build -/

/-- What became of a build that had to walk with a program. -/
inductive Course (s : Site) (n : Nat) (p : Program) : Prop where
  | walking (m : Machine) (d : Deadline) (walk : s.depot.walks.lookup n = some (s.walkOf p m d))
      (ahead : (Machine.ofProgram p).Ahead m)
  | arrived {m : Machine}
      (ended : s.depot.cache.builds[n]? = some ⟨p.root, .ended (.ok (frozen p m))⟩)
      (ahead : (Machine.ofProgram p).Ahead m) (waits : m.waits = true)
  | failed (e : Error) (ended : s.depot.cache.builds[n]? = some ⟨p.root, .ended (.error e)⟩)

theorem Turn.walkOf_eq {event : Event} (ht : Turn s₀ s event s') (h : Orderly s₀ s) :
    s'.walkOf = s.walkOf :=
  (ht.orderly h).walkOf_eq.trans h.walkOf_eq.symm

/-- A build stays on its course, whatever happens to it and to others. -/
theorem Turn.course {event : Event} (ht : Turn s₀ s event s') (h : Orderly s₀ s) {p : Program}
    (hc : s.Course n p) : s'.Course n p := by
  have hwalkOf := ht.walkOf_eq h
  cases hc with
  | arrived ended ahead waits => exact .arrived (ht.ended_stays h ended) ahead waits
  | failed e ended => exact .failed _ (ht.ended_stays h ended)
  | walking m d walk ahead =>
    have hstays : s'.depot.walks.lookup n = s.depot.walks.lookup n → s'.Course n p := by
      intro hl
      refine .walking m d ?_ ahead
      rw [hl, hwalkOf]
      exact walk
    have hbegun : ∀ {k root}, s.waiting? k = some root → n ≠ k := by
      rintro k root hk rfl
      rw [(waiting?_eq_some hk).2] at walk
      cases walk
    cases ht with
    | still idle => exact hstays rfl
    | asked root => exact hstays rfl
    | began waiting => exact hstays ((lookup_reach s _ _ _ _ n).trans (if_neg (hbegun waiting)))
    | restored waiting =>
      exact hstays ((lookup_walks_without s _ n).trans (if_neg (hbegun waiting)))
    | refused waiting =>
      exact hstays ((lookup_walks_without s _ n).trans (if_neg (hbegun waiting)))
    | dropped waiting => exact hstays rfl
    | @went pause k looks q m₁ m' d₁ d' walk' ahead' =>
      by_cases hk : n = k
      · subst hk
        obtain ⟨rfl, rfl⟩ := walkOf_injective (Option.some.inj (walk.symm.trans walk'))
        refine .walking m' d' ?_ (ahead.trans ahead')
        rw [lookup_reach, if_pos rfl, hwalkOf]
      · exact hstays ((lookup_reach s _ _ _ _ n).trans (if_neg hk))
    | @arrived pause k looks q m₁ m' d₁ files walk' ahead' waits saved =>
      by_cases hk : n = k
      · subst hk
        obtain ⟨rfl, rfl⟩ := walkOf_injective (Option.some.inj (walk.symm.trans walk'))
        refine .arrived ?_ (ahead.trans ahead') waits
        rw [@builds_finishBuild { s with host := { s.host with files } } p.root n _
          (h.walk_inFlight walk).1, if_pos rfl]
      · exact hstays ((lookup_walks_without s _ n).trans (if_neg hk))
    | @stopped pause k looks q m₁ d₁ reason walk' =>
      by_cases hk : n = k
      · subst hk
        obtain ⟨rfl, rfl⟩ := walkOf_injective (Option.some.inj (walk.symm.trans walk'))
        refine .failed (.buildFailed p.root reason) ?_
        rw [builds_finishBuild (h.walk_inFlight walk).1, if_pos rfl]
      · exact hstays ((lookup_walks_without s _ n).trans (if_neg hk))
    | closed =>
      obtain ⟨e, he⟩ := h.close.2.failed _ (Lookup.mem_of_eq_some walk)
      exact .failed _ he

theorem Course.run (hr : s₀.backend.IsReference) (h : Orderly s₀ s) {p : Program}
    (hc : s.Course n p) (events : List Event) : (s.run events).Course n p := by
  induction events generalizing s with
  | nil => exact hc
  | cons event events ih =>
    exact ih (h.step hr event) ((step_turn hr h event).course h hc)

theorem run_grows (hr : s₀.backend.IsReference) (h : Orderly s₀ s) (events : List Event) :
    s.depot.cache.Grows (s.run events).depot.cache := by
  induction events generalizing s with
  | nil => exact .refl _
  | cons event events ih =>
    exact ((step_turn hr h event).grows h).trans (ih (h.step hr event))

/-- Whoever waits for a walk is told of its end. -/
theorem Course.answer (h : Orderly s₀ s) {p : Program} (hc : s.Course n p) {pair : MachinePair}
    (ha : s.depot.cache.answer? (.build n) = some (.ok pair)) :
    ∃ m, (Machine.ofProgram p).Ahead m ∧ m.waits = true ∧ pair = frozen p m := by
  cases hc with
  | walking m d walk ahead =>
    rw [(h.walk_inFlight walk).1.answer?_eq] at ha
    cases ha
  | @arrived m ended ahead waits =>
    rw [Cache.answer?_build ended] at ha
    cases ha
    exact ⟨m, ahead, waits, rfl⟩
  | failed e ended =>
    rw [Cache.answer?_build ended] at ha
    cases ha

/-! ## Builds that end well -/

/-- A pair is what a build of a program gives from the files of a site: a machine before its first
step, and one that comes out of the snapshot if there is one, and otherwise arrives at host input.
Both are frozen. -/
structure BuiltFrom (s : Site) (p : Program) (pair : MachinePair) : Prop where
  image : Program.load s.host.files (Bytes.ofText (s.imagePath p.root)) = .ok p
  zeroStep : pair.zeroStep = .plain (.ofProgram p) true none
  isFrozen : pair.hostIo.isFrozen = true
  restored : s.host.files.isFile (s.snapshotPath p.root) = true →
    ∃ m, (Machine.ofProgram p).restore s.host.files (s.snapshotPath p.root) = .ok m ∧
      pair.hostIo = .plain m true none
  derived : s.host.files.isFile (s.snapshotPath p.root) = false →
    ∃ horizon, ∀ host, ∃ copied arrived d,
      pair.zeroStep.copy host = .ok (copied, host) ∧
      (copied.stepUntilHostIo host horizon .never).1 = ⟨.ok (), d, arrived⟩ ∧
      arrived.freeze = .ok pair.hostIo

/-- Whoever has the patience sees a machine arrive at the end of its way. -/
theorem stepUntilHostIo_arrives {m m' : Machine} (ha : m.Ahead m') (hw : m'.waits = true) :
    ∃ horizon, ∀ host, ∃ d, ((Handle.plain m false none).stepUntilHostIo host horizon .never).1 =
      ⟨.ok (), d, .plain m' false none⟩ := by
  obtain ⟨n, hn⟩ := ha.exists_waitsWithin hw
  refine ⟨n, fun host => ?_⟩
  have hresult : ((Handle.plain m false none).stepUntilHostIo host n .never).1.result = .ok () := by
    unfold Handle.stepUntilHostIo
    rw [Handle.advance_plain, Deadline.watched_limit_none rfl]
    show Handle.watchedResult _ (m.stepUntilHostIo _ _ _).result = _
    have hfuel : n < Deadline.never.remaining n + 1 := Nat.lt_succ_self n
    rw [Machine.stepUntilHostIo_ok host.registry.resolve (d := .never) rfl hn hfuel]
    rfl
  obtain ⟨-, m'', hmachine, ha', hends⟩ := Handle.stepUntilHostIo_plain host n .never m none
  generalize ((Handle.plain m false none).stepUntilHostIo host n .never).1 = r
    at hresult hmachine hends ⊢
  obtain ⟨result, d, h⟩ := r
  dsimp only at hresult hmachine hends
  subst hresult hmachine
  obtain hends | ⟨hends, -⟩ | ⟨-, hw'⟩ := hends
  · cases hends
  · cases hends
  · rw [ha'.unique ha hw' hw]
    exact ⟨d, rfl⟩

theorem builtFrom_of_walk {p : Program} {m : Machine} (hp : s.HasToWalk p)
    (ha : (Machine.ofProgram p).Ahead m) (hw : m.waits = true) :
    BuiltFrom s p (frozen p m) := by
  obtain ⟨-, hfile, q, hload, hroot, hwalk⟩ := MachinePair.beginning_eq_walking_iff.1 hp
  obtain rfl := MachinePair.firstWalk_injective hwalk
  refine ⟨hload, rfl, rfl, fun hsnapshot => ?_, fun _ => ?_⟩
  · rw [show s.host.files.isFile (s.snapshotPath p.root) = false from hfile] at hsnapshot
    cases hsnapshot
  · obtain ⟨horizon, harrives⟩ := stepUntilHostIo_arrives ha hw
    refine ⟨horizon, fun host => ?_⟩
    obtain ⟨d, hd⟩ := harrives host
    exact ⟨_, _, d, Handle.copy_plain host _ true, hd, rfl⟩

theorem builtFrom_of_snapshot {name : String} {p : Program} {m : Machine} {d : Deadline}
    (h : beginning name s.depot.files (s.depot.locator.machinePath root) root d s.host.files =
      .ended (.ok (frozen p m))) : p.root = root ∧ BuiltFrom s p (frozen p m) := by
  obtain ⟨q, m', hload, rfl, hrestore, hpair⟩ := MachinePair.beginning_ended h
  have hz := congrArg MachinePair.zeroStep hpair
  have hi := congrArg MachinePair.hostIo hpair
  simp only [frozen, Handle.plain, Instance.plain, Machine.ofProgram] at hz hi
  obtain rfl : p = q := by simpa using hz
  obtain rfl : m = m' := by simpa using hi
  have hfile : s.host.files.isFile (s.snapshotPath p.root) = true := by
    unfold Machine.restore at hrestore
    cases hread : s.host.files.read (s.snapshotPath p.root) with
    | error f =>
      unfold snapshotPath at hread
      rw [hread] at hrestore
      cases hrestore
    | ok content => exact Files.isFile_iff.2 ⟨content, Files.find_of_read hread⟩
  refine ⟨rfl, hload, rfl, rfl, fun _ => ⟨m, hrestore, rfl⟩, fun hnone => ?_⟩
  rw [hfile] at hnone
  cases hnone

/-- Whoever is told of a pair gets what was built from the files that there were when the build
began. -/
theorem answers_built (hr : s₀.backend.IsReference) (h : Orderly s₀ s)
    (hw : s.waiting? n = some root) (events : List Event) {pair : MachinePair}
    (ha : (s.run (.start n :: events)).depot.cache.answer? (.build n) = some (.ok pair)) :
    ∃ p, p.root = root ∧ BuiltFrom s p pair := by
  obtain ⟨hb, -⟩ := waiting?_eq_some hw
  have hnext := h.step hr (.start n)
  have ht := step_turn hr h (.start n)
  have hended : ∀ {o}, (s.step (.start n)).depot.cache.builds[n]? = some ⟨root, .ended o⟩ →
      o = .ok pair := by
    intro o ho
    have hanswer : (s.run (.start n :: events)).depot.cache.answer? (.build n) = some o :=
      (run_grows hr hnext events).answer? (Cache.answer?_build ho)
    rw [ha] at hanswer
    exact (Option.some.inj hanswer).symm
  generalize hs' : s.step (.start n) = s' at ht hended hnext
  have hrun : s.run (.start n :: events) = s'.run events := by
    rw [← hs']
    rfl
  cases ht with
  | still idle =>
    have hidle : s.waiting? n = none := idle
    rw [hidle] at hw
    cases hw
  | @began _ p waiting isOpen hasTo =>
    obtain rfl : p.root = root := Option.some.inj (waiting.symm.trans hw)
    have hcourse : Course (s.reach n p.root 0 (.walking (s.walkOf p (.ofProgram p) s.openDeadline)))
        n p := .walking _ _ ((lookup_reach s n _ _ _ n).trans (if_pos rfl)) (.here _)
    have hcourse' := hcourse.run hr hnext events
    rw [hrun] at ha
    obtain ⟨m, hahead, hwaits, rfl⟩ := hcourse'.answer (hnext.run hr events) ha
    exact ⟨p, rfl, builtFrom_of_walk hasTo hahead hwaits⟩
  | @restored _ root' p m waiting isOpen begins =>
    obtain rfl : root' = root := Option.some.inj (waiting.symm.trans hw)
    have hpair := hended ((builds_finishBuild hb 0 n).trans (if_pos rfl))
    cases hpair
    obtain ⟨hroot, hbuilt⟩ := builtFrom_of_snapshot begins
    exact ⟨p, hroot, hbuilt⟩
  | @refused _ root' reason waiting =>
    obtain rfl : root' = root := Option.some.inj (waiting.symm.trans hw)
    have hpair := hended ((builds_finishBuild hb 0 n).trans (if_pos rfl))
    cases hpair

end Rerun.Site
