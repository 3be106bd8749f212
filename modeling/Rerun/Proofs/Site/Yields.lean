import Rerun.Proofs.Directory
import Rerun.Proofs.MachinePair
import Rerun.Site

/-!
# What a directory yields

With the reference engine and without a limit on builds, what is built for a module root depends on
nothing but the image and the snapshot in its directory (`Yields`). A build writes no other file
than the snapshot, and from there on the same is built from it (`Intact.begins`, `Intact.write`).
-/

namespace Rerun.Site

open MachinePair (firstWalk frozen)

/-! ## What a directory yields -/

/-- Where the image of a module root is. -/
def imagePath (s : Site) (root : Digest) : String :=
  Path.join (s.depot.locator.machinePath root) s.depot.files.image

/-- Where the end of the way of a module root is kept. -/
def snapshotPath (s : Site) (root : Digest) : String :=
  Path.join (s.depot.locator.machinePath root) s.depot.files.snapshot

/-- How a build of a module root begins from some files. -/
def beginsFrom (s : Site) (root : Digest) (fs : Files) : MachinePair.Stage :=
  MachinePair.beginning s.backend.name s.depot.files (s.depot.locator.machinePath root) root .never
    fs

/-- How it begins from those of the site. -/
def begins (s : Site) (root : Digest) : MachinePair.Stage := s.beginsFrom root s.host.files

/-- Whether the build of a module root has to walk with a program. -/
def Walks (s : Site) (root : Digest) (p : Program) : Prop :=
  s.begins root = .walking (firstWalk p (s.snapshotPath root) .never)

/-- The outcome of a build of a module root: at once, or at the end of the way of its program. -/
inductive Yields (s : Site) (root : Digest) : Except Error MachinePair → Prop where
  | atOnce {result : Result MachinePair} {outcome : Except Error MachinePair}
      (ends : s.begins root = .ended result)
      (tells : Build.outcomeOf root result = some outcome) : Yields s root outcome
  | walked {p : Program} {m : Machine} (walks : s.Walks root p)
      (ahead : (Machine.ofProgram p).Ahead m) (waits : m.waits = true) :
      Yields s root (.ok (frozen p m))

variable {s : Site} {root : Digest}

theorem begins_outcome {result : Result MachinePair} (h : s.begins root = .ended result) :
    ∃ outcome, Build.outcomeOf root result = some outcome := by
  unfold begins beginsFrom at h
  exact MachinePair.beginning_outcome h

theorem begins_ended {pair : MachinePair} (h : s.begins root = .ended (.ok pair)) :
    ∃ p m, pair = frozen p m := by
  unfold begins beginsFrom at h
  obtain ⟨p, m, -, -, -, hpair⟩ := MachinePair.beginning_ended h
  exact ⟨p, m, hpair⟩

theorem begins_walking {w : MachinePair.Walk} (h : s.begins root = .walking w) :
    ∃ p, p.root = root ∧ w = firstWalk p (s.snapshotPath root) .never := by
  unfold begins beginsFrom at h
  obtain ⟨p, -, hroot, hw⟩ := MachinePair.beginning_walking h
  exact ⟨p, hroot, hw⟩

/-- What a build walks with is the program of the image. -/
theorem Walks.load {p : Program} (h : s.Walks root p) :
    Program.load s.host.files (Bytes.ofText (s.imagePath root)) = .ok p := by
  unfold Walks begins beginsFrom at h
  obtain ⟨q, hq, -, hw⟩ := MachinePair.beginning_walking h
  rw [MachinePair.firstWalk_injective hw]
  exact hq

/-- There is one outcome at most. -/
theorem Yields.unique {o o' : Except Error MachinePair} (h : s.Yields root o)
    (h' : s.Yields root o') : o = o' := by
  cases h with
  | atOnce ends tells =>
    cases h' with
    | atOnce ends' tells' =>
      rw [ends] at ends'
      cases ends'
      rw [tells] at tells'
      exact Option.some.inj tells'
    | walked walks' ahead' waits' =>
      rw [Walks, ends] at walks'
      cases walks'
  | walked walks ahead waits =>
    cases h' with
    | atOnce ends' tells' =>
      rw [Walks, ends'] at walks
      cases walks
    | walked walks' ahead' waits' =>
      rw [Walks] at walks walks'
      rw [walks] at walks'
      obtain rfl := MachinePair.firstWalk_injective (MachinePair.Stage.walking.inj walks')
      rw [ahead.unique ahead' waits waits']

/-- A pair is made of machines of the builtin engine. -/
theorem Yields.pair_eq {pair : MachinePair} (h : s.Yields root (.ok pair)) :
    ∃ p m, pair = frozen p m := by
  cases h with
  | @atOnce result outcome ends tells =>
    cases result with
    | ok pair' =>
      cases tells
      exact begins_ended ends
    | error f => cases f <;> cases tells
  | @walked p m walks ahead waits => exact ⟨p, m, rfl⟩

/-! ## Files -/

/-- The files that builds of a module root use are those of the site, but for a snapshot that such a
build has written. -/
structure Intact (s : Site) (root : Digest) (fs : Files) : Prop where
  image : fs.find (s.imagePath root) = s.host.files.find (s.imagePath root)
  snapshot : fs.find (s.snapshotPath root) = s.host.files.find (s.snapshotPath root) ∨
    ∃ p m, s.Walks root p ∧ (Machine.ofProgram p).Ahead m ∧ m.waits = true ∧
      fs.find (s.snapshotPath root) = .ok (.file m.snapshot.write)

/-- From such files a build begins as from those of the site, or takes over the outcome. -/
theorem Intact.begins {fs : Files} (h : s.Intact root fs) :
    s.beginsFrom root fs = s.begins root ∨
      ∃ pair, s.beginsFrom root fs = .ended (.ok pair) ∧ s.Yields root (.ok pair) := by
  rcases h.snapshot with hs | ⟨p, m, hw, ha, hwaits, hs⟩
  · exact .inl (MachinePair.beginning_congr _ h.image hs)
  · have hread : fs.read (s.snapshotPath root) = .ok m.snapshot.write := by
      unfold Files.read
      rw [hs]
      rfl
    have hfile : fs.isFile (s.snapshotPath root) = true := by
      unfold Files.isFile
      rw [hs]
    exact .inr ⟨frozen p m, MachinePair.beginning_of_snapshot h.image hw hfile
      (MachinePair.restore_snapshot ha hread), .walked hw ha hwaits⟩

/-- The names of the files that belong to a machine are plain and different. -/
structure Named (s : Site) : Prop where
  image : Path.IsPlain s.depot.files.image
  snapshot : Path.IsPlain s.depot.files.snapshot
  distinct : s.depot.files.image ≠ s.depot.files.snapshot

/-- The end of a walk leaves the files of all module roots intact. -/
theorem Intact.write (hn : s.Named) {fs gs : Files} (h : ∀ root, s.Intact root fs)
    {p : Program} {m : Machine} (hw : s.Walks root p) (ha : (Machine.ofProgram p).Ahead m)
    (hwaits : m.waits = true)
    (hwrite : fs.write (s.snapshotPath root) m.snapshot.write = .ok gs) (r : Digest) :
    s.Intact r gs := by
  obtain ⟨w⟩ := Files.written_of_write hwrite
  have hplain : ∀ d : Digest, Path.IsPlain d.text := Path.isPlain_text
  have himage : gs.find (s.imagePath r) = fs.find (s.imagePath r) :=
    w.find_other (hplain root) hn.snapshot (hplain r) hn.image fun h => hn.distinct h.2
  refine ⟨himage.trans (h r).image, ?_⟩
  by_cases hr : r = root
  · subst hr
    exact .inr ⟨p, m, hw, ha, hwaits, w.find_eq⟩
  · have hsnapshot : gs.find (s.snapshotPath r) = fs.find (s.snapshotPath r) :=
      w.find_other (hplain root) hn.snapshot (hplain r) hn.snapshot
        fun h => hr (Digest.text_injective h.1)
    rw [hsnapshot]
    exact (h r).snapshot

end Rerun.Site
