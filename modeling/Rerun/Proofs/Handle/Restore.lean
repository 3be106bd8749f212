import Rerun.Proofs.Handle.Twin
import Rerun.Proofs.Machine.Resembles
import Rerun.Proofs.Machine.WellFormed
import Rerun.Proofs.MachinePair

/-!
# Saving and restoring

A handle that takes over what another of its program has saved goes on as the other does, given the
same messages and contents, and keeps everything else. A file that is no snapshot of the program is
refused, and nothing changes (`restored_or_refused`).
-/

namespace Rerun

namespace Instance

open Machine

/-- Calls that take some steps at a time end alike. -/
theorem stepInChunks_resembles {host host' : Host} {m m' : Machine}
    (h : m.Resembles host.registry.resolve host'.registry.resolve m') (chunk fuel : Nat)
    (d : Deadline) :
    ∃ r r' : Ran Machine, (plain m).stepInChunks chunk fuel host d = (plainRan r, host) ∧
      (plain m').stepInChunks chunk fuel host' d = (plainRan r', host') ∧
      EndAlike host.registry.resolve host'.registry.resolve r r' := by
  induction fuel generalizing d m m' with
  | zero => exact ⟨⟨_, d, m⟩, ⟨_, d, m'⟩, rfl, rfl, rfl, rfl, h⟩
  | succ fuel ih =>
    rw [stepInChunks, stepInChunks, plain_status, plain_status, h.progress]
    split
    · exact ⟨⟨_, d, m⟩, ⟨_, d, m'⟩, rfl, rfl, rfl, rfl, h⟩
    · split
      · exact ⟨⟨_, d.tick, m⟩, ⟨_, d.tick, m'⟩, rfl, rfl, rfl, rfl, h⟩
      · obtain ⟨hresult, hdeadline, hmachine⟩ := h.step chunk d.tick
        rw [step_plain, step_plain]
        dsimp only
        cases hr : (m.step host.registry.resolve chunk d.tick).result with
        | ok u =>
          rw [hr, Result.untoken_ok, Result.untoken_eq_ok] at hresult
          rw [hresult, hdeadline]
          exact ih hmachine _
        | error f =>
          rw [hr] at hresult
          obtain ⟨g, hg, hgf⟩ := Result.untoken_eq_error hresult
          rw [hg, hdeadline]
          exact ⟨⟨.error f, _, _⟩, ⟨.error g, _, _⟩, rfl, rfl, congrArg Except.error hgf, rfl,
            hmachine⟩

end Instance

namespace Handle

open Machine

/-! ## What the machine answers -/

/-- Whether an operation asks for what a machine does or is, whoever owns it. -/
def Op.isOfMachine : Op → Bool
  | .step .. | .stepInChunks .. | .stepUntilHostIo .. | .hash | .root | .global | .steps | .status
  | .isRunning | .isErrored | .validFor .. | .proof | .setGlobal .. | .addMessage .. => true
  | _ => false

/-- What is answered to some operations, one after another. -/
def answers (horizon : Nat) : Host → Handle → List Op → List (Result Reply)
  | _, _, [] => []
  | host, h, op :: ops =>
    let done := h.perform horizon host op
    done.reply :: answers horizon done.host done.handle ops

/-- An operation ended alike for two handles, and left their machines alike. -/
structure DoneResembles (host host' : Host) (family family' : Option Nat) (a b : Done) : Prop where
  reply : b.reply.untoken = a.reply.untoken
  hosts : a.host = host ∧ b.host = host'
  machines : ∃ n n' : Machine, n.Resembles host.registry.resolve host'.registry.resolve n' ∧
    a.handle = plain n false family ∧ b.handle = plain n' false family'

variable {host host' : Host} {m m' : Machine} (family family' : Option Nat)

theorem watchedResult_untoken {r r' : Result Unit} (h : r'.untoken = r.untoken) (d : Deadline) :
    (watchedResult d r').untoken = (watchedResult d r).untoken := by
  cases r with
  | ok u => rw [Result.untoken_eq_ok.1 h]
  | error f =>
    obtain ⟨g, rfl, hgf⟩ := Result.untoken_eq_error h
    exact congrArg Except.error hgf

theorem untoken_map {α β : Type} (k : α → β) (r : Result α) :
    Result.untoken (r.map k) = r.untoken.map k := by
  cases r <;> rfl

/-- A call that ends alike with both machines ends alike for both handles. -/
theorem advance_resembles (d : Deadline) {run run' : Deadline → Instance → Ran Instance × Host}
    (hrun : ∀ d, ∃ r r' : Ran Machine, run d (.plain m) = (Instance.plainRan r, host) ∧
      run' d (.plain m') = (Instance.plainRan r', host') ∧
      EndAlike host.registry.resolve host'.registry.resolve r r') :
    DoneResembles host host' family family' (running ((plain m false family).advance host d run))
      (running ((plain m' false family').advance host' d run')) := by
  obtain ⟨r, r', hr, hr', halike⟩ := hrun d.watched
  rw [advance_plain, advance_plain, hr, hr']
  refine ⟨?_, ⟨rfl, rfl⟩, r.machine, r'.machine, halike.machine, rfl, rfl⟩
  show Result.untoken (Except.map _ (watchedResult _ r'.result)) =
    Result.untoken (Except.map _ (watchedResult _ r.result))
  have hdeadline : r'.deadline.spent = r.deadline.spent := by rw [halike.deadline]
  rw [untoken_map, untoken_map, watchedResult_untoken halike.result]
  simp only [Instance.plainRan]
  rw [hdeadline]

/-- A question to which the machines know the same answer. -/
theorem reading_resembles (h : m.Resembles host.registry.resolve host'.registry.resolve m')
    {f f' : Instance → Reply} (hf : f' (.plain m') = f (.plain m)) :
    DoneResembles host host' family family' ((plain m false family).reading host f)
      ((plain m' false family').reading host' f') :=
  ⟨congrArg (fun r : Reply => Result.untoken (.ok r)) hf, ⟨rfl, rfl⟩, m, m', h, rfl, rfl⟩

/-- A change that leaves the machines alike. -/
theorem update_resembles {n n' : Machine}
    (h : n.Resembles host.registry.resolve host'.registry.resolve n')
    {change change' : Instance → Result Instance} (hc : change (.plain m) = .ok (.plain n))
    (hc' : change' (.plain m') = .ok (.plain n')) :
    DoneResembles host host' family family'
      ((plain m false family).changing host ((plain m false family).update change))
      ((plain m' false family').changing host' ((plain m' false family').update change')) := by
  have hupdate : ∀ {m n : Machine} (family : Option Nat) {change : Instance → Result Instance},
      change (.plain m) = .ok (.plain n) →
        (plain m false family).update change = .ok (plain n false family) := by
    intro m n family change hc
    show Except.bind _ _ = _
    rw [hc]
    rfl
  rw [hupdate family hc, hupdate family' hc']
  exact ⟨rfl, ⟨rfl, rfl⟩, n, n', h, rfl, rfl⟩

/-- Operations that the machine alone answers are answered alike. -/
theorem perform_resembles (h : m.Resembles host.registry.resolve host'.registry.resolve m')
    (horizon : Nat) {op : Op} (ho : op.isOfMachine = true) :
    DoneResembles host host' family family' ((plain m false family).perform horizon host op)
      ((plain m' false family').perform horizon host' op) := by
  have hprogress : ∀ f : Progress → Reply, DoneResembles host host' family family'
      ⟨.ok (f m.progress), host, plain m false family⟩
      ⟨.ok (f m'.progress), host', plain m' false family'⟩ := fun f => by
    rw [h.progress]
    exact ⟨rfl, ⟨rfl, rfl⟩, m, m', h, rfl, rfl⟩
  cases op with
  | step d count =>
    exact advance_resembles family family' d fun d =>
      ⟨_, _, rfl, rfl, h.step count.toNat d⟩
  | stepInChunks d chunk =>
    show DoneResembles host host' family family'
      (running ((plain m false family).stepInChunks host horizon d chunk))
      (running ((plain m' false family').stepInChunks host' horizon d chunk))
    unfold stepInChunks
    split
    · exact advance_resembles family family' d fun d =>
        ⟨⟨_, d, m⟩, ⟨_, d, m'⟩, rfl, rfl, rfl, rfl, h⟩
    · exact advance_resembles family family' d fun d =>
        Instance.stepInChunks_resembles h _ _ d
  | stepUntilHostIo d =>
    exact advance_resembles family family' d fun d =>
      ⟨_, _, rfl, rfl, h.stepUntilHostIo _ d⟩
  | hash => exact reading_resembles family family' h (congrArg Reply.digest h.hash)
  | root =>
    exact reading_resembles family family' h
      (congrArg (fun p : Program => Reply.digest p.root) h.program)
  | global => exact hprogress fun p => .global p.global
  | steps => exact hprogress fun p => .number p.steps
  | status => exact hprogress fun p => .status p.status
  | isRunning => exact hprogress fun p => .bool (p.status = .running)
  | isErrored => exact hprogress fun p => .bool (p.status = .errored)
  | validFor requested =>
    exact hprogress fun p => .bool (if requested < p.steps then false
      else if p.steps = requested then true else p.status.isHalted)
  | proof => exact reading_resembles family family' h (congrArg Reply.bytes h.proof)
  | setGlobal g => exact update_resembles family family' (h.setGlobal g) rfl rfl
  | addMessage inbox msg =>
    exact update_resembles family family' (h.addMessage inbox msg) rfl rfl
  | _ => cases ho

/-- So are all of them, one after another. -/
theorem answers_resemble (h : m.Resembles host.registry.resolve host'.registry.resolve m')
    (horizon : Nat) {ops : List Op} (ho : ∀ op ∈ ops, op.isOfMachine = true) :
    (answers horizon host' (plain m' false family') ops).map Result.untoken =
      (answers horizon host (plain m false family) ops).map Result.untoken := by
  induction ops generalizing m m' with
  | nil => rfl
  | cons op ops ih =>
    obtain ⟨hop, hops⟩ := List.forall_mem_cons.1 ho
    obtain ⟨hreply, ⟨hhost, hhost'⟩, n, n', hon, hn, hn'⟩ :=
      perform_resembles family family' h horizon hop
    rw [answers, answers, List.map_cons, List.map_cons, hreply, hhost, hhost', hn, hn',
      ih hon hops]

/-! ## Restoring -/

/-- A file is a snapshot of a program. -/
def IsSnapshot (fs : Files) (path : String) (p : Program) (s : Snapshot) : Prop :=
  ∃ bs, fs.read path = .ok bs ∧ s.IsIn bs ∧ s.root = p.root

/-- How a file is refused that is no such snapshot. -/
def refusal (path reason : String) : Error :=
  .engineFault s!"failed to deserialize machine state from {path}: {reason}"

/-- A machine takes over the progress in a snapshot of its program, and refuses every other file. -/
theorem restore_cases (m : Machine) (fs : Files) (path : String) :
    (∃ s, IsSnapshot fs path m.program s ∧
        m.restore fs path = .ok { m with progress := s.progress }) ∨
      (∀ s, ¬ IsSnapshot fs path m.program s) ∧
        ∃ reason, m.restore fs path = .error (refusal path reason) := by
  unfold Machine.restore
  cases hread : fs.read path with
  | error fault =>
    refine .inr ⟨?_, fault.message, rfl⟩
    rintro s ⟨bs, hbs, -⟩
    rw [hread] at hbs
    cases hbs
  | ok bs =>
    dsimp only
    cases hparse : Snapshot.parse bs with
    | error complaint =>
      refine .inr ⟨?_, complaint.message, rfl⟩
      rintro s ⟨bs', hbs, hin, -⟩
      rw [hread] at hbs
      cases hbs
      rw [Snapshot.parse_eq_ok_iff.2 hin] at hparse
      cases hparse
    | ok s =>
      dsimp only
      by_cases hroot : s.root = m.program.root
      · exact .inl ⟨s, ⟨bs, hread, Snapshot.parse_eq_ok_iff.1 hparse, hroot⟩, if_pos hroot⟩
      · refine .inr ⟨?_, _, if_neg hroot⟩
        rintro s' ⟨bs', hbs, hin, hroot'⟩
        rw [hread] at hbs
        cases hbs
        rw [Snapshot.parse_eq_ok_iff.2 hin] at hparse
        cases hparse
        exact hroot hroot'

/-- The same of its handle. -/
theorem perform_restore_cases (horizon : Nat) (host : Host) (path : String) (m : Machine)
    (family : Option Nat) :
    (∃ s, IsSnapshot host.files path m.program s ∧
        (plain m false family).perform horizon host (.restore path) =
          ⟨.ok .done, host, plain { m with progress := s.progress } false family⟩) ∨
      (∀ s, ¬ IsSnapshot host.files path m.program s) ∧ ∃ reason,
        (plain m false family).perform horizon host (.restore path) =
          ⟨fail (refusal path reason), host, plain m false family⟩ := by
  unfold perform
  dsimp only
  rw [restore_plain]
  obtain ⟨s, hs, hm⟩ | ⟨hno, reason, he⟩ := restore_cases m host.files path
  · rw [hm]
    exact .inl ⟨s, hs, rfl⟩
  · rw [he]
    exact .inr ⟨hno, reason, rfl⟩

/-- For all machines of one program, in any states, with any handles: one can be saved wherever a
file can be written, the other takes over what was saved, progress and nothing else, and whatever
the two are then asked about their machines is answered alike, as long as they are given the same
messages and find the same contents. Any file at all either is a snapshot of the program, whose
progress is taken over, or it is refused as a fault of the engine, and host and handle stay as they
are. What was saved and is then cut off, wherever, is refused. -/
theorem restored_or_refused (horizon : Nat) (host : Host) (path : String) (m m' : Machine)
    (isFrozen : Bool) (family family' : Option Nat) (same : m'.program = m.program) :
    let restored := plain { m' with progress := m.progress } false family'
    let done := (plain m' false family').perform horizon host (.restore path)
    (host.files.IsWritable path → ∃ files,
      (plain m isFrozen family).perform horizon host (.save path) =
          ⟨.ok .done, { host with files }, plain m isFrozen family⟩ ∧
        files.read path = .ok m.snapshot.write) ∧
    (host.files.read path = .ok m.snapshot.write → done = ⟨.ok .done, host, restored⟩) ∧
    (∀ world world' : Host,
      (∀ inbox index, m'.message? inbox index = m.message? inbox index) →
        (∀ hash, (world'.registry.resolve m'.context hash).untoken =
          (world.registry.resolve m.context hash).untoken) →
        ∀ ops, (∀ op ∈ ops, op.isOfMachine = true) →
          (answers horizon world' restored ops).map Result.untoken =
            (answers horizon world (plain m false family) ops).map Result.untoken) ∧
    ((∃ s, IsSnapshot host.files path m'.program s ∧
        done = ⟨.ok .done, host, plain { m' with progress := s.progress } false family'⟩) ∨
      (∀ s, ¬ IsSnapshot host.files path m'.program s) ∧
        ∃ reason, done = ⟨fail (refusal path reason), host, plain m' false family'⟩) ∧
    (∀ bs missing, m.snapshot.write = bs ++ missing → missing ≠ [] →
      host.files.read path = .ok bs →
        ∃ reason, done = ⟨fail (refusal path reason), host, plain m' false family'⟩) := by
  intro restored done
  have hcases := perform_restore_cases horizon host path m' family'
  refine ⟨fun hwritable => ?_, fun hread => ?_, fun world world' messages contents ops hops => ?_,
    hcases, fun bs missing hwrite hmissing hread => ?_⟩
  · obtain ⟨files, hwrite⟩ := hwritable.write m.snapshot.write
    refine ⟨files, ?_, Files.read_write hwrite⟩
    have hsave : m.save host.files path = .ok files := by
      unfold Machine.save
      rw [hwrite]
    unfold perform
    dsimp only
    rw [save_plain, hsave]
  · obtain ⟨s, ⟨bs, hbs, hin, -⟩, hdone⟩ | ⟨hno, -⟩ := hcases
    · rw [hread] at hbs
      cases hbs
      rw [← Snapshot.parse_eq_ok_iff, Snapshot.parse_write] at hin
      cases hin
      exact hdone
    · exact absurd ⟨_, hread, m.snapshot.isIn_write, congrArg Program.root same.symm⟩
        (hno m.snapshot)
  · have hresembles : m.Resembles world.registry.resolve world'.registry.resolve
        { m' with progress := m.progress } := ⟨same, rfl, messages, contents⟩
    exact answers_resemble family family' hresembles horizon hops
  · obtain ⟨s, ⟨bs', hbs, hin, -⟩, -⟩ | ⟨-, hrefused⟩ := hcases
    · rw [hread] at hbs
      cases hbs
      exact absurd hin (Snapshot.not_isIn_of_written hwrite hmissing)
    · exact hrefused

/-- The reader in the last batch that can be numbered. -/
def lateReader : Machine :=
  { Machine.ofProgram reader with
    progress :=
      ⟨1, 1, .running, .ofContent [1],
        ⟨.ofContent [2], .ofContent [3], 18446744073709551615, 0⟩⟩ }

/-- A reader with a message and a token of its own. -/
def otherReader : Machine :=
  { Machine.ofProgram reader with inbox := [((.delayed, 3), [0x2A])], context := 7 }

/-- A reader takes over what a frozen one has saved, and is refused where nothing was saved yet. -/
theorem restored_or_refused_on_reader :
    otherReader.program = lateReader.program ∧
      (∃ files, (plain lateReader true none).perform 9 readerHost (.save "/snapshot") =
          ⟨.ok .done, { readerHost with files }, plain lateReader true none⟩ ∧
        (plain otherReader false (some 7)).perform 9 { readerHost with files }
            (.restore "/snapshot") =
          ⟨.ok .done, { readerHost with files },
            plain { otherReader with progress := lateReader.progress } false (some 7)⟩) ∧
      ∃ reason, (plain otherReader false (some 7)).perform 9 readerHost (.restore "/snapshot") =
        ⟨fail (refusal "/snapshot" reason), readerHost, plain otherReader false (some 7)⟩ := by
  have hmissing : readerHost.files.read "/snapshot" = .error .notFound := rfl
  obtain ⟨hsave, -, -, hcases, -⟩ := restored_or_refused 9 readerHost "/snapshot" lateReader
    otherReader true none (some 7) rfl
  refine ⟨rfl, ?_, ?_⟩
  · obtain ⟨files, hdone, hread⟩ := hsave ⟨[], _, rfl⟩
    obtain ⟨-, hrestored, -⟩ := restored_or_refused 9 { readerHost with files } "/snapshot"
      lateReader otherReader true none (some 7) rfl
    exact ⟨files, hdone, hrestored hread⟩
  · obtain ⟨s, ⟨bs, hbs, -⟩, -⟩ | ⟨-, hrefused⟩ := hcases
    · rw [hmissing] at hbs
      cases hbs
    · exact hrefused

end Handle

end Rerun
