import Rerun.Proofs.Node.Isolation
import Rerun.Proofs.Site.Fate

/-!
# Builds are all or nothing

Whoever asks for the pair of a module root that is not there starts a build (`pair_new`). If it
ends well, a new site over the files that are left gives the same pair (`Fate.rebuilds`), and if it
fails, there is nothing left of it (`Fate.leavesNothing`). All of it together is
`builds_all_or_nothing`.
-/

namespace Rerun.Site

open MachinePair (firstWalk frozen beginning)
open Node (readerNode readerConfig readerPlace)

variable {s₀ s s' : Site} {root : Digest} {n : Nat} {event : Event}

/-! ## A request as a history -/

theorem waiting?_ask (h : Orderly s₀ s) (he : s.depot.cache.entry? root = none) :
    (s.step (.ask root)).waiting? s.depot.cache.builds.length = some root := by
  have hbuild : (s.depot.cache.request root).2.builds[s.depot.cache.builds.length]? =
      some ⟨root, .inFlight⟩ := by
    rw [Cache.request_new he, Cache.getElem?_started, if_pos rfl]
  have hwalk : s.depot.walks.lookup s.depot.cache.builds.length = none := by
    cases hl : s.depot.walks.lookup s.depot.cache.builds.length with
    | none => rfl
    | some w =>
      obtain ⟨hlt, -⟩ := List.getElem?_eq_some_iff.1 (h.walks _ w hl).2
      exact absurd hlt (Nat.lt_irrefl _)
  unfold waiting? step
  dsimp only
  rw [hbuild, hwalk]

/-- Whoever asks for a root that is not there starts a build, which begins at once. -/
theorem request_new (h : Orderly s₀ s) (he : s.depot.cache.entry? root = none) :
    s.request root = (.build s.depot.cache.builds.length,
      s.run [.ask root, .start s.depot.cache.builds.length]) := by
  have hstart := step_start (waiting?_ask h he)
  rw [request_started he, ← step_ask he, ← hstart]
  rfl

theorem pass_eq (s : Site) (looks : Nat) (builds : List Nat) :
    s.pass looks builds = s.run (builds.map (.goOn (some looks))) := by
  unfold pass run
  rw [List.foldl_map]
  rfl

/-- Nothing else happens after that but that builds go on, and only the new one if no other was on
its way. -/
theorem pair_new (h : Orderly s₀ s) (he : s.depot.cache.entry? root = none)
    (patience : Option Nat) :
    let n := s.depot.cache.builds.length
    ∃ after, (∀ event ∈ Event.start n :: after, event ≠ .ask root) ∧
      (s.inFlight = [] → OnlyGoesOn n (.start n :: after)) ∧
      (s.pair patience root).2.2 = (s.step (.ask root)).run (.start n :: after) ∧
      (s.pair patience root).1 = (s.pair patience root).2.2.depot.cache.answer? (.build n) := by
  intro n
  let s' := s.run [.ask root, .start n]
  let looks := (s'.goOn patience n).1
  have hothers : ∀ k ∈ s'.inFlight, k = n ∨ k ∈ s.inFlight := by
    intro k hk
    have hstart := step_start (waiting?_ask h he)
    change k ∈ ((s.step (.ask root)).step (.start n)).inFlight at hk
    rw [hstart] at hk
    have hbegun := inFlight_startBuild hk
    exact hbegun
  have hpair : (s.pair patience root).2.2 =
      (s'.goOn patience n).2.pass looks (s'.inFlight.filter (· ≠ n)) := by
    unfold pair
    rw [request_new h he]
    rfl
  refine ⟨.goOn patience n :: (s'.inFlight.filter (· ≠ n)).map (.goOn (some looks)), ?_, ?_, ?_, ?_⟩
  · intro event hevent
    simp only [List.mem_cons, List.mem_map] at hevent
    obtain rfl | rfl | ⟨k, -, rfl⟩ := hevent <;> rintro ⟨⟩
  · intro halone pause k hk
    simp only [List.mem_cons, List.mem_map, List.mem_filter, reduceCtorEq, false_or] at hk
    obtain hk | ⟨k', ⟨hk', -⟩, hk⟩ := hk
    · cases hk
      rfl
    · cases hk
      have hbusy := hothers k hk'
      rw [halone] at hbusy
      exact hbusy.resolve_right List.not_mem_nil
  · rw [hpair, pass_eq]
    rfl
  · unfold pair
    rw [request_new h he]

/-! ## The same pair from the files that are left -/

/-- A new site over the files of a site gives a pair to whoever asks for a module root. -/
def Rebuilds (s : Site) (root : Digest) (pair : MachinePair) : Prop :=
  ∀ (locator : Locator) (patience : Option Nat), locator.rootPath = s.depot.locator.rootPath →
    ((ofFiles s.backend s.clock locator s.depot.files s.host.files).pair patience root).1 =
      some (.ok pair)

/-- A build that takes over a snapshot is over as soon as it begins. -/
theorem Orderly.pair_of_beginning (h : Orderly s₀ s) (hr : s₀.backend.IsReference)
    (he : s.depot.cache.entry? root = none) (ho : s.depot.isClosed = false) {pair : MachinePair}
    (hb : beginning s.backend.name s.depot.files (s.depot.locator.machinePath root) root
      s.openDeadline s.host.files = .ended (.ok pair)) (patience : Option Nat) :
    (s.pair patience root).1 = some (.ok pair) := by
  obtain ⟨after, -, -, hrun, htold⟩ := pair_new h he patience
  have hasked := h.step hr (.ask root)
  have hwaiting := waiting?_ask h he
  have hstart : (s.step (.ask root)).step (.start s.depot.cache.builds.length) =
      (s.step (.ask root)).finishBuild s.depot.cache.builds.length 0 (.ok pair) := by
    have hopen : (s.step (.ask root)).buildDeadline = s.openDeadline := buildDeadline_open ho
    rw [step_start hwaiting, startBuild_reference (hasked.backend ▸ hr), hopen]
    exact congrArg ((s.step (.ask root)).reach s.depot.cache.builds.length root 0) hb
  have hover := @told_finishBuild (s.step (.ask root)) root s.depot.cache.builds.length 0 (.ok pair)
    (waiting?_eq_some hwaiting).1
  rw [← hstart] at hover
  rw [htold, hrun]
  exact (run_grows hr (hasked.step hr _) after).answer? hover

theorem rebuilds_of_beginning (hr : s.backend.IsReference) {pair : MachinePair}
    (hb : beginning s.backend.name s.depot.files (s.depot.locator.machinePath root) root
      s.openDeadline s.host.files = .ended (.ok pair)) : s.Rebuilds root pair := by
  intro locator patience hroot
  have hnew := orderly_ofFiles s.backend s.clock locator s.depot.files s.host.files
  refine hnew.pair_of_beginning hr rfl rfl ?_ patience
  show beginning s.backend.name s.depot.files (locator.machinePath root) root s.openDeadline
    s.host.files = _
  unfold Locator.machinePath
  rw [hroot]
  exact hb

/-- After a build that ended well a new site builds the same pair, if the snapshot could be
written. -/
theorem Fate.rebuilds (hf : Fate s₀ s s' n root) (hr : s₀.backend.IsReference) (h : Orderly s₀ s)
    (h' : Orderly s₀ s') {pair : MachinePair}
    (ha : s'.depot.cache.answer? (.build n) = some (.ok pair))
    (hw : s.host.files.IsWritable (s.snapshotPath root)) : s'.Rebuilds root pair := by
  refine rebuilds_of_beginning (h'.backend ▸ hr) ?_
  rw [h'.backend, h'.names, h'.locator, h'.openDeadline_eq]
  cases hf with
  | goesOn inFlight => cases inFlight.answer?_eq.symm.trans ha
  | failed reason told => cases told.symm.trans ha
  | restored told files begins =>
    cases told.symm.trans ha
    rw [files]
    rwa [h.backend, h.names, h.locator, h.openDeadline_eq] at begins
  | @arrived p m isRoot told hasTo ahead saved =>
    cases told.symm.trans ha
    subst isRoot
    rw [(h.paths p.root).2] at saved hw
    obtain ⟨-, -, q, hload, -, -⟩ := MachinePair.beginning_eq_walking_iff.1 hasTo
    obtain ⟨content, himage, -⟩ := Program.find_of_load hload
    have hsaved : m.save s.host.files (s₀.snapshotPath p.root) = .ok s'.host.files := by
      obtain hsave | ⟨⟨e, he⟩, -⟩ := saved
      · exact hsave
      · obtain ⟨files, hfiles⟩ := hw.write m.snapshot.write
        unfold Machine.save at he
        rw [hfiles] at he
        cases he
    have hwritten : s'.host.files.read (s₀.snapshotPath p.root) = .ok m.snapshot.write :=
      Files.read_write (MachinePair.files_of_save hsaved)
    exact MachinePair.beginning_of_snapshot ((h'.files.find himage).trans himage.symm) hasTo
      (Files.isFile_iff.2 ⟨_, Files.find_of_read hwritten⟩)
      (MachinePair.restore_snapshot ahead hwritten)

/-! ## All or nothing -/

/-- Nothing is left of a build that failed but the reason, and another one may be tried. -/
structure LeavesNothing (s : Site) (root : Digest) (e : Error) : Prop where
  reason : ∃ reason, e = .buildFailed root reason
  forgotten : s.depot.cache.entry? root = none
  again : (s.request root).1 = .build s.depot.cache.builds.length

theorem leavesNothing_of_forgotten (reason : String) (h : s.depot.cache.entry? root = none) :
    s.LeavesNothing root (.buildFailed root reason) :=
  ⟨⟨reason, rfl⟩, h, congrArg Prod.fst (request_started h)⟩

theorem Fate.leavesNothing (hf : Fate s₀ s s' n root) {e : Error}
    (ha : s'.depot.cache.answer? (.build n) = some (.error e)) :
    s'.host.files = s.host.files ∧ s'.LeavesNothing root e := by
  cases hf with
  | goesOn inFlight => cases inFlight.answer?_eq.symm.trans ha
  | failed reason told files forgotten =>
    cases told.symm.trans ha
    exact ⟨files, leavesNothing_of_forgotten reason forgotten⟩
  | restored told => cases told.symm.trans ha
  | arrived isRoot told => cases told.symm.trans ha

/-- What can be said of the builds of a site. -/
structure AllOrNothing (s : Site) : Prop where
  /-- Whoever asks for a root that is not there and gets a pair gets what was built from the files.
  If no other build was on its way and the snapshot can be written, a new site over the files that
  are left gives the same pair. -/
  gets : ∀ patience root pair, s.depot.cache.entry? root = none →
    (s.pair patience root).1 = some (.ok pair) →
      (∃ p, p.root = root ∧ BuiltFrom s p pair) ∧
        (s.inFlight = [] → s.host.files.IsWritable (s.snapshotPath root) →
          (s.pair patience root).2.2.Rebuilds root pair)
  /-- Whoever gets an error can try again. If no other build was on its way, the files are as they
  were. -/
  isRefused : ∀ patience root e, s.depot.cache.entry? root = none →
    (s.pair patience root).1 = some (.error e) →
      (s.pair patience root).2.2.LeavesNothing root e ∧
        (s.inFlight = [] → (s.pair patience root).2.2.host.files = s.host.files)
  /-- A build among others that ends well has what was built from the files when it began. -/
  builds : ∀ n root after pair, s.waiting? n = some root →
    (s.run (.start n :: after)).depot.cache.answer? (.build n) = some (.ok pair) →
      ∃ p, p.root = root ∧ BuiltFrom s p pair
  /-- If the snapshot can be written when it ends, a new site over the files that are left gives the
  same pair. -/
  rebuilds : ∀ event n root pair, s.depot.cache.IsInFlight n root →
    (s.step event).depot.cache.answer? (.build n) = some (.ok pair) →
      s.host.files.IsWritable (s.snapshotPath root) → (s.step event).Rebuilds root pair
  /-- A build among others that fails leaves nothing. -/
  fails : ∀ event n root e, s.depot.cache.IsInFlight n root →
    (s.step event).depot.cache.answer? (.build n) = some (.error e) →
      (s.step event).host.files = s.host.files ∧ (s.step event).LeavesNothing root e
  /-- Nothing writes files but a build that ends well, and it writes its snapshot. -/
  writes : ∀ event, (s.step event).host.files ≠ s.host.files →
    ∃ pause n p m, event = .goOn pause n ∧ s.depot.cache.IsInFlight n p.root ∧
      (s.step event).depot.cache.answer? (.build n) = some (.ok (frozen p m)) ∧
      m.save s.host.files (s.snapshotPath p.root) = .ok (s.step event).host.files
  /-- If no build is in flight and none was given up, the counters of the site and those of its
  cache are the same. -/
  counts : s.depot.cache.inFlightCount = 0 → s.depot.cache.droppedCount = 0 →
    s.metrics.builds = UInt64.ofNat s.depot.cache.stats.builds ∧
      s.metrics.buildFailures = UInt64.ofNat s.depot.cache.stats.failures

/-- What becomes of a build that is asked for while no other one is on its way. -/
theorem Orderly.pair_fate (h : Orderly s₀ s) (hr : s₀.backend.IsReference)
    (he : s.depot.cache.entry? root = none) (halone : s.inFlight = []) (patience : Option Nat) :
    Fate s₀ (s.step (.ask root)) (s.pair patience root).2.2 s.depot.cache.builds.length root := by
  obtain ⟨after, hasks, honly, hrun, -⟩ := pair_new h he patience
  rw [hrun]
  exact fate_run hr (h.step hr (.ask root)) (waiting?_eq_some (waiting?_ask h he)).1 (honly halone)
    hasks

theorem Orderly.pair_gets (h : Orderly s₀ s) (hr : s₀.backend.IsReference)
    (he : s.depot.cache.entry? root = none) {patience : Option Nat} {pair : MachinePair}
    (ha : (s.pair patience root).1 = some (.ok pair)) :
    (∃ p, p.root = root ∧ BuiltFrom s p pair) ∧
      (s.inFlight = [] → s.host.files.IsWritable (s.snapshotPath root) →
        (s.pair patience root).2.2.Rebuilds root pair) := by
  obtain ⟨after, -, -, hrun, htold⟩ := pair_new h he patience
  have hasked := h.step hr (.ask root)
  have hend : Orderly s₀ (s.pair patience root).2.2 := hrun ▸ hasked.run hr _
  have ha' := htold.symm.trans ha
  refine ⟨?_, fun halone hwritable => ?_⟩
  · rw [hrun] at ha'
    obtain ⟨p, hroot, hbuilt⟩ := answers_built hr hasked (waiting?_ask h he) after ha'
    exact ⟨p, hroot, hbuilt.image, hbuilt.zeroStep, hbuilt.isFrozen, hbuilt.restored,
      hbuilt.derived⟩
  · exact (h.pair_fate hr he halone patience).rebuilds hr hasked hend ha' hwritable

theorem Orderly.pair_refused (h : Orderly s₀ s) (hr : s₀.backend.IsReference)
    (he : s.depot.cache.entry? root = none) {patience : Option Nat} {e : Error}
    (ha : (s.pair patience root).1 = some (.error e)) :
    (s.pair patience root).2.2.LeavesNothing root e ∧
      (s.inFlight = [] → (s.pair patience root).2.2.host.files = s.host.files) := by
  obtain ⟨after, hasks, -, hrun, htold⟩ := pair_new h he patience
  have ha' := htold.symm.trans ha
  refine ⟨?_, fun halone => ((h.pair_fate hr he halone patience).leavesNothing ha').1⟩
  rw [hrun] at ha' ⊢
  obtain ⟨⟨reason, rfl⟩, hforgotten⟩ := forgotten_run hr (h.step hr (.ask root))
    (waiting?_eq_some (waiting?_ask h he)).1 hasks ha'
  exact leavesNothing_of_forgotten reason hforgotten

theorem Orderly.counts_eq (h : Orderly s₀ s) (hflight : s.depot.cache.inFlightCount = 0)
    (hdropped : s.depot.cache.droppedCount = 0) :
    s.metrics.builds = UInt64.ofNat s.depot.cache.stats.builds ∧
      s.metrics.buildFailures = UInt64.ofNat s.depot.cache.stats.failures := by
  have hlength : s.depot.cache.stats.builds = s.depot.cache.endedCount := by
    show s.depot.cache.builds.length = _
    rw [s.depot.cache.length_eq_endedCount, hflight, hdropped]
    rfl
  rw [hlength]
  exact ⟨h.counted, h.countedFailures⟩

/-! ## The site of the reader -/

/-- A root with an image and without a snapshot has to be walked with. -/
theorem walks_of_image {p : Program}
    (hp : Program.load s.host.files (Bytes.ofText (s.imagePath p.root)) = .ok p)
    (hs : s.host.files.isFile (s.snapshotPath p.root) = false) : s.Walks p.root p := by
  unfold Walks begins beginsFrom
  exact MachinePair.beginning_eq_walking_iff.2 ⟨rfl, hs, p, hp, rfl, rfl⟩

theorem reader_snapshotPath : readerNode.site.snapshotPath reader.root =
    Path.join (Path.join "/" Node.readerRoot) "snapshot" := by
  rw [← Node.reader_root]
  rfl

theorem reader_isWritable : readerNode.site.host.files.IsWritable
    (readerNode.site.snapshotPath reader.root) := by
  have hwrites : (readerNode.site.host.files.write
      (Path.join (Path.join "/" Node.readerRoot) "snapshot") []).toOption.isSome = true := by
    decide +kernel
  rw [reader_snapshotPath]
  cases hwrite : readerNode.site.host.files.write
      (Path.join (Path.join "/" Node.readerRoot) "snapshot") [] with
  | ok files => exact ⟨[], files, hwrite⟩
  | error f =>
    rw [hwrite] at hwrites
    cases hwrites

/-- The reader asks the host at once. -/
theorem reader_pair : (readerNode.site.pair none reader.root).1 = some (.ok readerPair) := by
  have hcalm : readerNode.site.Calm :=
    ⟨referenceBackend_isReference, ⟨Node.readerConfig_isCalm.image,
      Node.readerConfig_isCalm.snapshot, Node.readerConfig_isCalm.distinct⟩, rfl⟩
  have hafter : After readerNode.site readerNode.site := after_self rfl rfl rfl
  have hfile : readerNode.site.host.files.isFile (readerNode.site.snapshotPath reader.root) =
      false := by
    rw [reader_snapshotPath]
    decide +kernel
  have hyields : readerNode.site.Yields reader.root (.ok readerPair) :=
    .walked (walks_of_image Node.reader_load hfile) (.here _) rfl
  obtain ⟨o, ho⟩ := Option.isSome_iff_exists.1 (pair_isSome hcalm Node.reader_fits hyields hafter)
  obtain ⟨-, hall⟩ := pair_yields hcalm none reader.root hafter
  rw [ho, (hall o ho).unique hyields]

/-! ## The builds of any site -/

/-- Take a new site of any files with the reference engine. Whatever happens to it, its builds are
all or nothing. -/
theorem builds_all_or_nothing {backend : Backend} (hr : backend.IsReference) (clock : Clock)
    (locator : Locator) (names : Config.MachineFiles) (files : Files) (before : List Event) :
    ((ofFiles backend clock locator names files).run before).AllOrNothing := by
  have h := (orderly_ofFiles backend clock locator names files).run hr before
  constructor
  case gets => exact fun patience root pair he ha => h.pair_gets hr he ha
  case isRefused => exact fun patience root e he ha => h.pair_refused hr he ha
  case builds => exact fun n root after pair hw ha => answers_built hr h hw after ha
  case rebuilds =>
    intro event n root pair hn ha hwritable
    exact ((step_turn hr h event).fate h hn).rebuilds hr h (h.step hr event) ha
      hwritable
  case fails =>
    intro event n root e hn ha
    exact ((step_turn hr h event).fate h hn).leavesNothing ha
  case writes => exact fun event hf => (step_turn hr h event).writes h hf
  case counts => exact fun hflight hdropped => h.counts_eq hflight hdropped

/-- The reader is built and leaves a snapshot, from which a new site builds it again. -/
theorem builds_all_or_nothing_on_reader :
    (readerNode.site.pair none reader.root).1 = some (.ok readerPair) ∧
      (∃ p, p.root = reader.root ∧ BuiltFrom readerNode.site p readerPair) ∧
      (readerNode.site.pair none reader.root).2.2.Rebuilds reader.root readerPair := by
  have hall : readerNode.site.AllOrNothing := builds_all_or_nothing referenceBackend_isReference
    ⟨1, 9, 0⟩ ⟨"/", none, []⟩ readerConfig.machine readerPlace.files []
  obtain ⟨hbuilt, hagain⟩ := hall.gets none reader.root readerPair rfl reader_pair
  exact ⟨reader_pair, hbuilt, hagain rfl reader_isWritable⟩

end Rerun.Site
