import Rerun.Proofs.Node.Onward

/-!
# Runs are isolated from each other

Take a new node without limits that has the reference engine. The outcome of a run does not depend
on what the node was asked before, and its machine pairs stay as they are (`runs_isolated`).
-/

namespace Rerun

/-! ## Nodes without limits -/

/-- No limits, and plain and different names for the files that belong to a machine. -/
structure Config.IsCalm (c : Config) : Prop where
  image : Path.IsPlain c.machine.image
  snapshot : Path.IsPlain c.machine.snapshot
  distinct : c.machine.image ≠ c.machine.snapshot
  builds : c.machine.buildTimeoutMs = 0
  interpreter : c.interpreter.runTimeoutMs = 0
  native : c.jit.runTimeoutMs = 0

namespace Node

variable {config : Config} {place : Place} {reports : Reports} {n₀ n n' : Node}

/-- What a node is made of in the beginning. -/
structure IsNew (config : Config) (place : Place) (n : Node) : Prop where
  site : ∃ locator,
    n.site = .ofFiles place.backend place.clock locator config.machine place.files
  kind : n.interpreter.kind = .interpreter
  interpreter : n.interpreter.timeoutMs = config.interpreter.runTimeoutMs
  native : ∀ r, n.native = some r → r.timeoutMs = config.jit.runTimeoutMs
  pool : ∀ kind, (n.runner kind).pool.isClosed = false
  isNative : n.isNative = false
  sessions : n.sessions = []

theorem isNew_of_create (h : create config place reports = .ok n) : IsNew config place n := by
  have hopen : ∀ {name workers pool}, Pool.create name workers = .ok pool →
      pool.isClosed = false := by
    intro name workers pool hp
    unfold Pool.create at hp
    split at hp
    · cases hp
    · cases hp
      rfl
  obtain ⟨-, -, h⟩ := Result.of_bind h
  obtain ⟨locator, -, h⟩ := Result.of_bind h
  obtain ⟨interpreter, hi, h⟩ := Result.of_bind h
  obtain ⟨pool, hp, hi⟩ := Result.of_bind hi
  cases hi
  split at h
  · obtain ⟨native, hn, h⟩ := Result.of_bind h
    obtain ⟨pool', hp', hn⟩ := Result.of_bind hn
    cases hn
    cases h
    refine ⟨⟨locator, rfl⟩, rfl, rfl, ?_, ?_, rfl, rfl⟩
    · rintro r ⟨⟩
      rfl
    · rintro (_ | _)
      · exact hopen hp
      · exact hopen hp'
  · cases h
    refine ⟨⟨locator, rfl⟩, rfl, rfl, ?_, ?_, rfl, rfl⟩
    · rintro r ⟨⟩
    · rintro (_ | _) <;> exact hopen hp

variable (hnew : IsNew config place n) (hb : place.backend.IsReference) (hc : config.IsCalm)

include hnew

theorem IsNew.site_start : n.start.2.site = n.site := (start_runners hnew.kind).1

theorem IsNew.isStarted : IsStarted n.start.2 := isStarted_start hnew.kind

theorem IsNew.after_start : After n.start.2 n.start.2 := by
  obtain ⟨locator, hsite⟩ := hnew.site
  refine ⟨rfl, rfl, ?_⟩
  rw [hnew.site_start, hsite]
  exact Site.after_self rfl rfl rfl

include hb hc in
theorem IsNew.calm_start : n.start.2.site.Calm := by
  obtain ⟨locator, hsite⟩ := hnew.site
  rw [hnew.site_start, hsite]
  exact ⟨hb, ⟨hc.image, hc.snapshot, hc.distinct⟩, hc.builds⟩

include hc in
/-- No run has a limit. -/
theorem IsNew.timeoutMs_start (kind : Runner.Kind) : (n.start.2.runner kind).timeoutMs = 0 := by
  obtain ⟨-, hinterpreter, hnative⟩ := start_runners hnew.kind
  have hi : n.start.2.interpreter.timeoutMs = 0 := by
    rw [hinterpreter, Runner.tried_timeoutMs, hnew.interpreter, hc.interpreter]
  cases kind with
  | interpreter => exact hi
  | native =>
    unfold runner
    dsimp only
    rw [hnative]
    cases hn : n.native with
    | none => exact hi
    | some r =>
      show (r.tried n.site.backend).timeoutMs = 0
      rw [Runner.tried_timeoutMs, hnew.native r hn, hc.native]

omit hnew

/-! ## Isolation -/

/-- The machine pair of a module root is there. -/
def Holds (n : Node) (root : Digest) (pair : MachinePair) : Prop :=
  n.site.depot.cache.ready? root = some pair

theorem run_outcome_unique (hc : n₀.site.Calm) (h : After n₀ n) (h' : After n₀ n')
    (kind : Runner.Kind) (ht : (n₀.runner kind).timeoutMs = 0) (root : Digest) (x : Input) :
    let a := (n.run kind root x).1.outcome?
    let b := (n'.run kind root x).1.outcome?
    (a.isSome = true → b.isSome = true → Run.untoken a = Run.untoken b) ∧
      (n₀.site.Fits root → Run.untoken a = Run.untoken b) := by
  intro a b
  unfold a b
  rw [run_eq, run_eq, h.runner, h'.runner]
  exact Runner.run_outcome_unique hc h.site h'.site ht root x

/-- Take a new node without limits that has the reference engine, and start it. After any two
histories that close nothing, a run of one kind has the same outcome up to the token in it, if it
comes to an end both times, and anyway if the machines of its module root are there in time. A
machine pair that is there after the first is frozen, stays as it is whatever else is asked, and is
the same after the second. -/
theorem runs_isolated (h : create config place reports = .ok n) (hb : place.backend.IsReference)
    (hc : config.IsCalm) {ops ops' : List Op} (hops : ∀ op ∈ ops, op.closes = false)
    (hops' : ∀ op ∈ ops', op.closes = false) (kind : Runner.Kind) (root : Digest) (x : Input) :
    let m := (n.start.2.performAll ops).2
    let m' := (n.start.2.performAll ops').2
    let a := (m.run kind root x).1.outcome?
    let b := (m'.run kind root x).1.outcome?
    (a.isSome = true → b.isSome = true → Run.untoken a = Run.untoken b) ∧
      (n.site.Fits root → Run.untoken a = Run.untoken b) ∧
      ∀ d pair, m.Holds d pair →
        pair.zeroStep.isFrozen = true ∧ pair.hostIo.isFrozen = true ∧
          (∀ more : List Op, (∀ op ∈ more, op.closes = false) →
            (m.performAll more).2.Holds d pair) ∧
          ∀ pair', m'.Holds d pair' → pair' = pair := by
  intro m m'
  have hnew := isNew_of_create h
  have hcalm := hnew.calm_start hb hc
  have honward : ∀ m (ops : List Op), (∀ op ∈ ops, op.closes = false) →
      Onward n.start.2 m (m.performAll ops).2 :=
    fun _ _ => performAll_onward hcalm hnew.isStarted
  obtain ⟨hafter, -⟩ := honward _ ops hops hnew.after_start
  obtain ⟨hafter', -⟩ := honward _ ops' hops' hnew.after_start
  obtain ⟨hended, hfits⟩ := run_outcome_unique hcalm hafter hafter' kind
    (hnew.timeoutMs_start hc kind) root x
  rw [hnew.site_start] at hfits
  refine ⟨hended, hfits, fun d pair hpair => ?_⟩
  have hready := Cache.ready?_eq_some.1 hpair
  have hyields := hafter.site.ready d pair hready
  obtain ⟨p, m₁, rfl⟩ := hyields.pair_eq
  refine ⟨rfl, rfl, fun more hmore => ?_, fun pair' hpair' => ?_⟩
  · obtain ⟨-, hgrows⟩ := honward m more hmore hafter
    exact Cache.ready?_eq_some.2 (hgrows.ready d _ hready)
  · have hready' := Cache.ready?_eq_some.1 hpair'
    exact Except.ok.inj ((hafter'.site.ready d pair' hready').unique hyields)

/-! ## A node with the reader -/

/-- The text of the module root of the reader. -/
def readerRoot : String := "0x0f1a4a6a4f83a6cf8f319bfe4349a9f7233e302709f262c5874f0220bb2fc04b"

/-- Plain names for the files that belong to a machine, and no limits. -/
def readerConfig : Config := { rootPath := "/", machine := ⟨"image", "snapshot", 0⟩ }

/-- A place where the reader is the only machine. -/
def readerPlace : Place where
  backend := referenceBackend
  files :=
    ⟨[], [([readerRoot], .directory), ([readerRoot, "image"], .file reader.toJson.compact)]⟩
  clock := ⟨1, 9, 0⟩
  surroundings := { cores := 1 }

theorem readerConfig_isCalm : readerConfig.IsCalm where
  image := ⟨by decide, by decide, by decide, by decide⟩
  snapshot := ⟨by decide, by decide, by decide, by decide⟩
  distinct := by decide
  builds := rfl
  interpreter := rfl
  native := rfl

/-- A new node there. -/
def readerNode : Node where
  config := readerConfig
  site := .ofFiles referenceBackend ⟨1, 9, 0⟩ ⟨"/", none, []⟩ readerConfig.machine readerPlace.files
  interpreter :=
    { kind := .interpreter, pool := ⟨"interpreter", 1, false⟩, timeoutMs := 0,
      stepChunk := 1048576 }
  native := some { kind := .native, pool := ⟨"jit", 1, false⟩, timeoutMs := 0 }
  reports := { capacity := 0 }

theorem create_reader :
    create readerConfig readerPlace { capacity := 0 } = .ok readerNode := by
  have hsearch : Locator.search readerPlace.files readerConfig.rootPath
      readerPlace.surroundings.programDirectory = .ok ⟨"/", none, []⟩ := by decide +kernel
  unfold create assemble
  rw [hsearch]
  rfl

theorem reader_root : reader.root.text = readerRoot := by decide +kernel

/-- The image of the reader is where a build looks for it. -/
theorem reader_load : Program.load readerNode.site.host.files
    (Bytes.ofText (readerNode.site.imagePath reader.root)) = .ok reader := by
  have hpath : readerNode.site.imagePath reader.root =
      Path.join (Path.join "/" readerRoot) "image" := by
    rw [← reader_root]
    rfl
  rw [hpath]
  exact Program.load_written (by decide +kernel)

/-- The way of the reader ends at once. -/
theorem reader_fits : readerNode.site.Fits reader.root := by
  intro p k hw hk
  have hp : (.ok p : Except Error Program) = .ok reader := hw.load.symm.trans reader_load
  rw [Except.ok.inj hp]
  rfl

/-- A run of the reader, and a session over it. -/
def readerHistory : List Op :=
  [.run reader.root readerInput, .openSession reader.root readerInput, .ask 0 (.stepAt 1),
    .closeSession 0]

/-- The reader takes its message and finishes, whether or not there was a session over it before,
and its machine pair stays. -/
theorem runs_isolated_on_reader :
    let m := (readerNode.start.2.performAll readerHistory).2
    let a := (m.run .native reader.root readerInput).1.outcome?
    let b := ((readerNode.start.2.performAll []).2.run .native reader.root readerInput).1.outcome?
    a.isSome = true ∧ Run.untoken a = Run.untoken b ∧
      ∃ pair, m.Holds reader.root pair ∧ pair.hostIo.isFrozen = true ∧
        (m.performAll readerHistory).2.Holds reader.root pair := by
  intro m a b
  have hrun : a.isSome = true ∧ (m.site.depot.cache.ready? reader.root).isSome = true := by
    decide +kernel
  obtain ⟨hended, hready⟩ := hrun
  obtain ⟨pair, hpair⟩ : ∃ pair, m.Holds reader.root pair := Option.isSome_iff_exists.1 hready
  have hopen : ∀ op ∈ readerHistory, op.closes = false := by decide
  obtain ⟨-, hsame, hpairs⟩ := runs_isolated create_reader referenceBackend_isReference
    readerConfig_isCalm hopen (List.forall_mem_nil _) .native reader.root readerInput
  obtain ⟨-, hfrozen, hkept, -⟩ := hpairs reader.root pair hpair
  exact ⟨hended, hsame reader_fits, pair, hpair, hfrozen, hkept readerHistory hopen⟩

end Node

end Rerun
