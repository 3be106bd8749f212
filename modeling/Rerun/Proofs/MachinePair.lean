import Rerun.Cache.Basic
import Rerun.MachinePair
import Rerun.Proofs.Files
import Rerun.Proofs.Handle.Plain
import Rerun.Proofs.Program

/-!
# The machines that builds give

With the reference engine a build that succeeds gives two machines of one program: one before its
first step, and one on the way to host input. This holds however often the walk was paused, and if
the second machine comes out of the file that an earlier build left (`Built.pair_eq`).
-/

namespace Rerun

/-! ## The reference engine -/

/-- The engine of programs, made to do nothing wrong. -/
structure Backend.IsReference (b : Backend) : Prop where
  engine : ∃ jit, b.engine = .builtin jit
  faults : b.faults = {}

namespace Backend

theorem load_reference {b : Backend} (hb : b.IsReference) (fs : Files) (path : Bytes) :
    b.load fs path =
      match Program.load fs path with
      | .ok p => .ok (.plain (.ofProgram p))
      | .error e => fail e := by
  obtain ⟨⟨jit, hj⟩, hf⟩ := hb
  unfold load
  rw [hj, hf]
  cases Program.load fs path <;> rfl

end Backend

/-! ## Walking to host input -/

namespace Handle

/-- However a walk to host input ends, the host is as it was and the machine went the way. It
arrives unless the deadline expires or nobody waits so long. -/
theorem stepUntilHostIo_plain (host : Host) (horizon : Nat) (d : Deadline) (m : Machine)
    (family : Option Nat) :
    ((plain m false family).stepUntilHostIo host horizon d).2 = host ∧
      ∃ m', ((plain m false family).stepUntilHostIo host horizon d).1.machine =
          plain m' false family ∧ m.Ahead m' ∧
        (((plain m false family).stepUntilHostIo host horizon d).1.result = .error .endless ∨
          ((plain m false family).stepUntilHostIo host horizon d).1.result = fail .cancelled ∧
            d.limit ≠ none ∨
          ((plain m false family).stepUntilHostIo host horizon d).1.result = .ok () ∧
            m'.waits = true) := by
  obtain ⟨hahead, hresult⟩ := Machine.stepUntilHostIo_ahead host.registry.resolve
    (d.watched.remaining horizon + 1) d.watched m
  refine ⟨rfl, _, rfl, hahead, ?_⟩
  obtain hr | ⟨hr, hw⟩ := hresult
  · refine .inl ?_
    unfold stepUntilHostIo
    rw [advance_plain]
    show watchedResult _ (m.stepUntilHostIo _ _ _).result = _
    rw [hr]
    rfl
  · right
    cases he : ((plain m false family).stepUntilHostIo host horizon d).1.deadline.isExpired with
    | true =>
      refine .inl ⟨?_, ?_⟩
      · unfold stepUntilHostIo at he ⊢
        rw [advance_plain] at he ⊢
        show watchedResult _ (m.stepUntilHostIo _ _ _).result = _
        rw [hr]
        unfold watchedResult
        dsimp only at he ⊢
        rw [he]
        rfl
      · intro hl
        have hf := Deadline.isExpired_of_limit_none
          (d := ((plain m false family).stepUntilHostIo host horizon d).1.deadline) hl
        rw [he] at hf
        cases hf
    | false =>
      obtain ⟨hd, hrun, hsame, -⟩ := advance_plain_unexpired
        (fun d => Machine.stepUntilHostIo_follows host.registry.resolve _ d m) he
      refine .inr ⟨?_, ?_⟩
      · rw [Deadline.watched_eq hd] at hr
        exact hsame.trans hr
      · rw [Deadline.watched_eq hd] at hw ⊢
        exact hw hrun

end Handle

namespace MachinePair

/-! ## Beginning a build -/

/-- The pair of a program, with a machine on the way to host input. -/
def frozen (p : Program) (m : Machine) : MachinePair :=
  ⟨.plain (.ofProgram p) true none, .plain m true none⟩

/-- The walk of a program that a build begins with. -/
def firstWalk (p : Program) (snapshot : String) (d : Deadline) : Walk :=
  ⟨p.root, snapshot, .plain (.ofProgram p) false none, .plain (.ofProgram p) false none, d⟩

theorem firstWalk_injective {p q : Program} {snapshot snapshot' : String} {d d' : Deadline}
    (h : firstWalk p snapshot d = firstWalk q snapshot' d') : p = q := by
  have hz := congrArg Walk.zeroStep h
  simp only [firstWalk, Handle.plain, Instance.plain, Machine.ofProgram] at hz
  simpa using hz

variable {backend : Backend} {files : Config.MachineFiles} {directory : String} {root : Digest}
  {d : Deadline} {host : Host}

/-- How a build from some files begins with the reference engine. -/
def beginning (name : String) (files : Config.MachineFiles) (directory : String) (root : Digest)
    (d : Deadline) (fs : Files) : Stage :=
  let image := Path.join directory files.image
  let snapshot := Path.join directory files.snapshot
  let refuse (reason : String) : Stage := .ended (fail (.buildFailed root reason))
  if d.isExpired then refuse "loader is closed"
  else if !fs.isFile image then refuse s!"machine image {image} not found"
  else
    match Program.load fs (Bytes.ofText image) with
    | .error e => refuse s!"{name} backend: {e.message}"
    | .ok p =>
      if p.root ≠ root then refuse s!"image {image} has module root {p.root}"
      else if fs.isFile snapshot then
        match (Machine.ofProgram p).restore fs snapshot with
        | .error e => refuse e.message
        | .ok m => .ended (.ok (frozen p m))
      else .walking (firstWalk p snapshot d)

/-- A build depends on nothing but the files, and begins without a change to what all machines
share. -/
theorem start_reference (hb : backend.IsReference) :
    start backend files directory root d host =
      (beginning backend.name files directory root d host.files, host) := by
  unfold start beginning load
  rw [Backend.load_reference hb]
  dsimp only
  cases d.isExpired with
  | true => rfl
  | false =>
    cases host.files.isFile (Path.join directory files.image) with
    | false => rfl
    | true =>
      simp only [Bool.false_eq_true, Bool.not_true, if_false]
      cases Program.load host.files (Bytes.ofText (Path.join directory files.image)) with
      | error e => rfl
      | ok p =>
        have hroot : (Instance.plain (.ofProgram p)).root = p.root := rfl
        dsimp only
        rw [hroot]
        by_cases h : p.root = root
        · subst h
          have hcopy : (Handle.ofInstance (.plain (.ofProgram p))).copy host =
              .ok (.plain (.ofProgram p) false none, host) := rfl
          simp only [ne_eq, not_true_eq_false, if_false, hcopy]
          dsimp only [pure, Except.pure]
          rw [Handle.restore_plain]
          cases host.files.isFile (Path.join directory files.snapshot) with
          | false => rfl
          | true =>
            simp only [if_true]
            cases (Machine.ofProgram p).restore host.files
                (Path.join directory files.snapshot) with
            | error e => rfl
            | ok m => rfl
        · simp only [ne_eq, h, not_false_eq_true, if_true]
          rfl

/-- What a build begins with that does not end at once. -/
theorem beginning_walking {name : String} {fs : Files} {w : Walk}
    (h : beginning name files directory root d fs = .walking w) :
    ∃ p, Program.load fs (Bytes.ofText (Path.join directory files.image)) = .ok p ∧
      p.root = root ∧ w = firstWalk p (Path.join directory files.snapshot) d := by
  unfold beginning at h
  dsimp only at h
  split at h
  · cases h
  · split at h
    · cases h
    · split at h
      · cases h
      · rename_i p hp
        split at h
        · cases h
        · rename_i hroot
          split at h
          · split at h <;> cases h
          · cases h
            exact ⟨p, hp, not_not.1 hroot, rfl⟩

theorem load_congr {fs gs : Files} {path : String} (h : gs.find path = fs.find path) :
    Program.load gs (Bytes.ofText path) = Program.load fs (Bytes.ofText path) := by
  unfold Program.load Files.read
  rw [Bytes.text?_ofText]
  dsimp only
  rw [h]

theorem restore_congr {fs gs : Files} {path : String} (h : gs.find path = fs.find path)
    (m : Machine) : m.restore gs path = m.restore fs path := by
  unfold Machine.restore Files.read
  rw [h]

theorem isFile_congr {fs gs : Files} {path : String} (h : gs.find path = fs.find path) :
    gs.isFile path = fs.isFile path := by
  unfold Files.isFile
  rw [h]

/-- Builds begin alike where image and snapshot are alike. -/
theorem beginning_congr {fs gs : Files} (name : String)
    (hi : gs.find (Path.join directory files.image) = fs.find (Path.join directory files.image))
    (hs : gs.find (Path.join directory files.snapshot) =
      fs.find (Path.join directory files.snapshot)) :
    beginning name files directory root d gs = beginning name files directory root d fs := by
  unfold beginning
  simp only [isFile_congr hi, load_congr hi, isFile_congr hs, restore_congr hs]

/-- A build that had to walk takes over the snapshot as soon as there is one. -/
theorem beginning_of_snapshot {fs gs : Files} {name : String} {p : Program} {m : Machine}
    (hi : gs.find (Path.join directory files.image) = fs.find (Path.join directory files.image))
    (h : beginning name files directory root d fs =
      .walking (firstWalk p (Path.join directory files.snapshot) d))
    (hs : gs.isFile (Path.join directory files.snapshot) = true)
    (hm : (Machine.ofProgram p).restore gs (Path.join directory files.snapshot) = .ok m) :
    beginning name files directory root d gs = .ended (.ok (frozen p m)) := by
  obtain ⟨q, hq, hroot, hw⟩ := beginning_walking h
  obtain rfl := firstWalk_injective hw
  unfold beginning at h ⊢
  dsimp only at h ⊢
  rw [isFile_congr hi, load_congr hi, hq]
  rw [hq] at h
  split at h
  · cases h
  · rename_i hd
    split at h
    · cases h
    · rename_i hfile
      rw [if_neg hd, if_neg hfile]
      dsimp only
      rw [if_neg (not_not.2 hroot), if_pos hs, hm]

/-- What begins and ends at once has an outcome. -/
theorem beginning_outcome {name : String} {fs : Files} {result : Result MachinePair}
    (h : beginning name files directory root d fs = .ended result) :
    ∃ outcome, Build.outcomeOf root result = some outcome := by
  unfold beginning at h
  dsimp only at h
  split at h
  · cases h
    exact ⟨_, rfl⟩
  · split at h
    · cases h
      exact ⟨_, rfl⟩
    · split at h
      · cases h
        exact ⟨_, rfl⟩
      · split at h
        · cases h
          exact ⟨_, rfl⟩
        · split at h
          · split at h <;> cases h <;> exact ⟨_, rfl⟩
          · cases h

/-- What a build gives that takes over a snapshot. -/
theorem beginning_ended {name : String} {fs : Files} {pair : MachinePair}
    (h : beginning name files directory root d fs = .ended (.ok pair)) :
    ∃ p m, Program.load fs (Bytes.ofText (Path.join directory files.image)) = .ok p ∧
      p.root = root ∧
      (Machine.ofProgram p).restore fs (Path.join directory files.snapshot) = .ok m ∧
      pair = frozen p m := by
  unfold beginning at h
  dsimp only at h
  split at h
  · cases h
  · split at h
    · cases h
    · split at h
      · cases h
      · rename_i p hp
        split at h
        · cases h
        · rename_i hroot
          split at h
          · split at h
            · cases h
            · rename_i m hm
              cases h
              exact ⟨p, m, hp, not_not.1 hroot, hm, rfl⟩
          · cases h

/-- A build from an image without a snapshot beside it begins to walk. -/
theorem start_of_image (hb : backend.IsReference) {p : Program}
    (hp : Program.load host.files (Bytes.ofText (Path.join directory files.image)) = .ok p)
    (hroot : p.root = root) (hd : d.isExpired = false)
    (hi : host.files.isFile (Path.join directory files.image) = true)
    (hs : host.files.isFile (Path.join directory files.snapshot) = false) :
    (start backend files directory root d host).1 =
      .walking (firstWalk p (Path.join directory files.snapshot) d) := by
  rw [start_reference hb]
  unfold beginning
  simp [hd, hi, hp, hroot, hs]

/-! ## Going on -/

/-- A walk goes on along the way, and ends with the machine at the end of it. Without a limit on the
build nothing else ends it. -/
theorem Walk.goOn_plain {w : Walk} {m : Machine} (hw : w.hostIo = .plain m false none)
    (horizon : Nat) (pause : Option Nat) (host : Host) :
    (∃ m' d, m.Ahead m' ∧
      (w.goOn horizon pause host).1 =
        .walking { w with hostIo := .plain m' false none, deadline := d } ∧
      d.limit = w.deadline.limit ∧ (w.goOn horizon pause host).2.2 = host) ∨
    (∃ m', m.Ahead m' ∧ m'.waits = true ∧
      (w.goOn horizon pause host).1 =
        .ended (freezeBoth w.root w.zeroStep (.plain m' false none)) ∧
      ((∃ e, m'.save host.files w.snapshot = .error e ∧
          (w.goOn horizon pause host).2.2 = host) ∨
        ∃ fs, m'.save host.files w.snapshot = .ok fs ∧
          (w.goOn horizon pause host).2.2 = { host with files := fs })) ∨
    (w.deadline.limit ≠ none ∧ (∃ reason,
        (w.goOn horizon pause host).1 = .ended (fail (.buildFailed w.root reason))) ∧
      (w.goOn horizon pause host).2.2 = host) := by
  obtain ⟨hhost, m', hm', hahead, hresult⟩ :=
    Handle.stepUntilHostIo_plain host horizon (w.deadline.within pause) m none
  unfold goOn
  dsimp only
  rw [hw]
  generalize (Handle.plain m false none).stepUntilHostIo host horizon (w.deadline.within pause) = r
    at hhost hm' hresult ⊢
  obtain ⟨⟨result, deadline, machine⟩, host'⟩ := r
  dsimp only at hhost hm' hresult ⊢
  subst hhost hm'
  obtain rfl | ⟨rfl, hlimit⟩ | ⟨rfl, hwaits⟩ := hresult
  · exact .inl ⟨m', _, hahead, rfl, rfl, rfl⟩
  · dsimp only [fail]
    split
    · rename_i hsame
      rw [hsame] at hlimit
      exact .inr (.inr ⟨hlimit, ⟨_, rfl⟩, rfl⟩)
    · exact .inl ⟨m', _, hahead, rfl, rfl, rfl⟩
  · refine .inr (.inl ⟨m', hahead, hwaits, ?_⟩)
    unfold arrive
    dsimp only
    rw [Handle.save_plain]
    cases hs : m'.save host'.files w.snapshot with
    | ok fs => exact ⟨rfl, .inr ⟨fs, rfl, rfl⟩⟩
    | error e => exact ⟨rfl, .inl ⟨e, rfl, rfl⟩⟩

/-- A walk without a limit ends if someone waits for all of it. -/
theorem Walk.goOn_ends {w : Walk} {m : Machine} (hw : w.hostIo = .plain m false none)
    (hl : w.deadline.limit = none) {horizon : Nat} (hm : m.waitsWithin horizon = true)
    (host : Host) : ∃ result, (w.goOn horizon none host).1 = .ended result := by
  have hd : (w.deadline.within none).limit = none := by
    simp [Deadline.within, Deadline.shorter, hl]
  have hresult : ((Handle.plain m false none).stepUntilHostIo host horizon
      (w.deadline.within none)).1.result = .ok () := by
    unfold Handle.stepUntilHostIo
    rw [Handle.advance_plain, Deadline.watched_limit_none hd]
    show Handle.watchedResult _ (m.stepUntilHostIo _ _ _).result = _
    have hfuel : horizon < (w.deadline.within none).remaining horizon + 1 := by
      unfold Deadline.remaining
      rw [hd]
      exact Nat.lt_succ_self horizon
    rw [Machine.stepUntilHostIo_ok _ hd hm hfuel]
    exact if_neg (by simp [Deadline.isExpired, hd])
  unfold goOn
  dsimp only
  rw [hw, hresult]
  unfold arrive
  dsimp only
  split <;> exact ⟨_, rfl⟩

/-! ## Whole builds -/

/-- A walk arrives with a pair, after pauses of any length, in which anything may happen to what all
machines share. -/
inductive Walk.Arrives : Walk → MachinePair → Prop where
  | now {w : Walk} {pair : MachinePair} (horizon : Nat) (pause : Option Nat) (host : Host)
      (ends : (w.goOn horizon pause host).1 = .ended (.ok pair)) : Arrives w pair
  | later {w w' : Walk} {pair : MachinePair} (horizon : Nat) (pause : Option Nat) (host : Host)
      (waits : (w.goOn horizon pause host).1 = .walking w') (rest : Arrives w' pair) :
      Arrives w pair

/-- The pairs that builds from the image of a program give: where there is no snapshot they walk to
host input, and otherwise they take over one that an earlier such build has written. -/
inductive Built (backend : Backend) (p : Program) : MachinePair → Prop where
  | walked {files : Config.MachineFiles} {directory : String} {root : Digest} {d : Deadline}
      {host : Host} {w : Walk} {pair : MachinePair}
      (image : Program.load host.files (Bytes.ofText (Path.join directory files.image)) = .ok p)
      (begins : (start backend files directory root d host).1 = .walking w)
      (arrives : w.Arrives pair) : Built backend p pair
  | restored {files : Config.MachineFiles} {directory path : String} {root : Digest} {d : Deadline}
      {host before after : Host} {earlier pair : MachinePair}
      (built : Built backend p earlier)
      (wrote : earlier.hostIo.save before path = .ok after)
      (kept : host.files.read (Path.join directory files.snapshot) = after.files.read path)
      (image : Program.load host.files (Bytes.ofText (Path.join directory files.image)) = .ok p)
      (ends : (start backend files directory root d host).1 = .ended (.ok pair)) :
      Built backend p pair

theorem Walk.Arrives.pair_eq {w : Walk} {pair : MachinePair} (h : w.Arrives pair) {p : Program}
    {m : Machine} (hz : w.zeroStep = .plain (.ofProgram p) false none)
    (hw : w.hostIo = .plain m false none) :
    ∃ m', m.Ahead m' ∧ m'.waits = true ∧ pair = frozen p m' := by
  induction h generalizing m with
  | @now w pair horizon pause host ends =>
    obtain ⟨m', d, -, hg, -⟩ | ⟨m', ha, hwaits, hg, -⟩ | ⟨-, ⟨f, hg⟩, -⟩ :=
      w.goOn_plain hw horizon pause host
    · rw [hg] at ends
      cases ends
    · rw [hg, hz] at ends
      cases ends
      exact ⟨m', ha, hwaits, rfl⟩
    · rw [hg] at ends
      cases ends
  | @later w w' pair horizon pause host waits rest ih =>
    obtain ⟨m', d, ha, hg, -⟩ | ⟨m', -, -, hg, -⟩ | ⟨-, ⟨f, hg⟩, -⟩ :=
      w.goOn_plain hw horizon pause host
    · rw [hg] at waits
      cases waits
      obtain ⟨m'', ha', hend⟩ := ih hz rfl
      exact ⟨m'', ha.trans ha', hend⟩
    · rw [hg] at waits
      cases waits
    · rw [hg] at waits
      cases waits

/-- A snapshot of a machine on its way brings another machine of the program to the same place. -/
theorem restore_snapshot {p : Program} {m : Machine} (ha : (Machine.ofProgram p).Ahead m)
    {fs : Files} {path : String} (hr : fs.read path = .ok m.snapshot.write) :
    (Machine.ofProgram p).restore fs path = .ok m := by
  obtain ⟨hp, hi, hc⟩ := ha.given_eq
  have hroot : m.snapshot.root = (Machine.ofProgram p).program.root :=
    congrArg Program.root hp
  unfold Machine.restore
  rw [hr]
  dsimp only
  rw [Snapshot.parse_write]
  dsimp only
  rw [if_pos hroot]
  obtain ⟨program, progress, inbox, context⟩ := m
  dsimp only at hp hi hc
  rw [hp, hi, hc]
  rfl

theorem files_of_save {m : Machine} {fs gs : Files} {path : String}
    (h : m.save fs path = .ok gs) : fs.write path m.snapshot.write = .ok gs := by
  unfold Machine.save at h
  cases hw : fs.write path m.snapshot.write with
  | error f => rw [hw] at h; cases h
  | ok fs' => rw [hw] at h; cases h; rfl

theorem read_of_save {m : Machine} {isFrozen : Bool} {before after : Host} {path : String}
    (h : (Handle.plain m isFrozen none).save before path = .ok after) :
    after.files.read path = .ok m.snapshot.write := by
  rw [Handle.save_plain] at h
  cases hs : m.save before.files path with
  | error e => rw [hs] at h; cases h
  | ok fs =>
    rw [hs] at h
    cases h
    exact Files.read_write (files_of_save hs)

/-- Every build of a program gives its two machines, the second at the end of the way to host
input. -/
theorem Built.pair_eq (hb : backend.IsReference) {p : Program} {pair : MachinePair}
    (h : Built backend p pair) :
    ∃ m, (Machine.ofProgram p).Ahead m ∧ m.waits = true ∧ pair = frozen p m := by
  induction h with
  | @walked files directory root d host w pair image begins arrives =>
    rw [start_reference hb] at begins
    obtain ⟨q, hq, -, rfl⟩ := beginning_walking begins
    rw [image] at hq
    cases hq
    exact arrives.pair_eq rfl rfl
  | @restored files directory path root d host before after earlier pair built wrote kept image
      ends ih =>
    rw [start_reference hb] at ends
    obtain ⟨q, m', hq, -, hm', rfl⟩ := beginning_ended ends
    rw [image] at hq
    cases hq
    obtain ⟨m, ha, hw, rfl⟩ := ih
    rw [read_of_save wrote] at kept
    rw [restore_snapshot ha kept] at hm'
    cases hm'
    exact ⟨_, ha, hw, rfl⟩

end MachinePair

/-! ## One such build -/

/-- A program that reads a message. -/
def reader : Program := ⟨[.readInbox .sequencer, .halt]⟩

/-- Where the image of the reader is. -/
def readerHost : Host := ⟨⟨[], [(["image"], .file reader.toJson.compact)]⟩, .empty, none⟩

/-- An input for the reader. -/
def readerInput : Input := (Input.ofState 1 default).addMessage .sequencer ⟨0, [0x2A]⟩

/-- The engine of programs, which runs them natively, too. -/
def referenceBackend : Backend := { engine := .builtin true }

theorem referenceBackend_isReference : referenceBackend.IsReference := ⟨⟨true, rfl⟩, rfl⟩

/-- The machines of the reader, which asks the host at once. -/
def readerPair : MachinePair := .frozen reader (.ofProgram reader)

theorem readerPair_built : MachinePair.Built referenceBackend reader readerPair := by
  have himage : Program.load readerHost.files (Bytes.ofText "/image") = .ok reader :=
    Program.load_written rfl
  have hbegins : (MachinePair.start referenceBackend ⟨"image", "snapshot", 0⟩ "/" reader.root .never
      readerHost).1 = .walking (MachinePair.firstWalk reader "/snapshot" .never) :=
    MachinePair.start_of_image referenceBackend_isReference himage rfl rfl rfl rfl
  exact .walked himage hbegins (.now 9 none readerHost rfl)

end Rerun
