import Rerun.Proofs.Handle.Files
import Rerun.Runner

/-!
# What outlasts all work

Whatever runs do to their site comes down to four things: counting, running copies of machines,
requests for machines, and builds that go on. A property that none of them takes away
(`OutlastsRuns`) is there after any run. Sessions do more than run copies, but they leave the files
alone, too (`Lasting`).
-/

namespace Rerun

namespace Site

/-- A property of sites that outlasts runs. -/
structure OutlastsRuns (P : Site → Prop) : Prop where
  counted : ∀ {s} metrics, P s → P { s with metrics }
  ran : ∀ {s} x d (way : Handle.Way) (source : Handle), P s →
    P { s with host := (source.runCopy s.host x d (way.advance s.clock.horizon)).host }
  request : ∀ {s} root, P s → P (s.request root).2
  goOn : ∀ {s} pause n, P s → P (s.goOn pause n).2

/-- A property of sites that outlasts all work. -/
structure Lasting (P : Site → Prop) : Prop where
  counted : ∀ {s} metrics, P s → P { s with metrics }
  withHost : ∀ {s host}, host.files = s.host.files → P s → P { s with host }
  request : ∀ {s} root, P s → P (s.request root).2
  goOn : ∀ {s} pause n, P s → P (s.goOn pause n).2

/-- That it is a site. -/
theorem lasting_true : Lasting fun _ => True :=
  ⟨fun _ _ => trivial, fun _ _ => trivial, fun _ _ => trivial, fun _ _ _ => trivial⟩

/-- What outlasts all work outlasts runs. -/
theorem Lasting.runs {P : Site → Prop} (hP : Lasting P) : OutlastsRuns P where
  counted := hP.counted
  ran x d way source :=
    hP.withHost (Handle.runCopy_files (way.advance_spared _) _ x d source)
  request := hP.request
  goOn := hP.goOn

/-- How a job ended is counted at most. -/
theorem settle_eq {α : Type} (s : Site) (r : Result α) :
    ∃ metrics, (s.settle r).2 = { s with metrics } := by
  unfold settle
  dsimp only
  split <;> split <;> exact ⟨_, rfl⟩

namespace OutlastsRuns

variable {P : Site → Prop} (hP : OutlastsRuns P) {s : Site}

include hP

/-! ## Machines -/

theorem pass (looks : Nat) (builds : List Nat) (h : P s) : P (s.pass looks builds) := by
  unfold Site.pass
  induction builds generalizing s with
  | nil => exact h
  | cons n builds ih => exact ih (hP.goOn (some looks) n h)

theorem await (patience : Option Nat) (ticket : Cache.Ticket MachinePair) (h : P s) :
    P (s.await patience ticket).2 := by
  cases ticket with
  | value pair => exact h
  | build n => exact hP.pass _ _ (hP.goOn patience n h)

theorem pair (patience : Option Nat) (root : Digest) (h : P s) :
    P (s.pair patience root).2.2 := hP.await patience _ (hP.request root h)

theorem requests (root : Digest) (count : Nat) (h : P s) : P (s.requests root count).2 := by
  induction count generalizing s with
  | zero => exact h
  | succ count ih => exact ih (hP.request root h)

theorem awaitAll (patience : Option Nat) (tickets : List (Cache.Ticket MachinePair)) (h : P s) :
    P (s.awaitAll patience tickets).2 := by
  induction tickets generalizing s patience with
  | nil => exact h
  | cons ticket tickets ih => exact ih _ (hP.await patience ticket h)

theorem pairs (patience : Option Nat) (root : Digest) (count : Nat) (h : P s) :
    P (s.pairs patience root count).2.2 :=
  hP.awaitAll patience _ (hP.requests root count h)

/-! ## Runs -/

theorem settle {α : Type} (r : Result α) (h : P s) : P (s.settle r).2 := by
  obtain ⟨metrics, hsame⟩ := s.settle_eq r
  rw [hsame]
  exact hP.counted metrics h

theorem onWorker (r : Runner) (x : Input) (d : Deadline) (pair : MachinePair) (h : P s) :
    P (r.onWorker s x d pair).2.2 := by
  unfold Runner.onWorker
  split
  · exact h
  · exact hP.settle _ (hP.ran x d r.way (r.source pair) h)

theorem withPair (r : Runner) (x : Input) (d : Deadline)
    (answer : Option (Except Error MachinePair)) (h : P s) :
    P (r.withPair s x d answer).2.2 := by
  rcases answer with _ | (e | pair)
  · exact h
  · exact h
  · exact hP.onWorker r x d pair h

theorem work (r : Runner) (root : Digest) (x : Input) (isClosed : Bool) (patience : Option Nat)
    (h : P s) : P (r.work s root x isClosed patience).2.2 := by
  unfold Runner.work
  split
  · exact h
  · exact hP.pass _ _ (hP.withPair r x _ _ (hP.pair _ root h))

theorem deliver (run : Run) (looks : Nat) (result : Result GlobalState) (h : P s) :
    P (Runner.deliver s run looks result).2 := by
  rcases result with (e | payload | -) | g
  · exact hP.counted _ h
  · exact h
  · exact h
  · exact hP.counted _ h

theorem complete (r : Runner) (run : Run) (x : Input) (h : P s) : P (r.complete s run x).2 :=
  hP.deliver run _ _ (hP.work r run.root x run.isClosed none h)

theorem completeWithin (r : Runner) (run : Run) (x : Input) (patience : Nat) (h : P s) :
    P (r.completeWithin s run x patience).2.2 := by
  have hworked := hP.work r run.root x run.isClosed (some patience) h
  unfold Runner.completeWithin
  dsimp only
  split
  · exact hP.deliver _ _ _ hworked
  · exact hP.deliver _ _ _ hworked

theorem run (r : Runner) (root : Digest) (x : Input) (h : P s) : P (r.run s root x).2 :=
  hP.complete r _ x (hP.counted _ h)

/-! ## Runs side by side -/

theorem launchAll (r : Runner) (root : Digest) (xs : List Input) (h : P s) :
    P (r.launchAll s root xs).2 := by
  induction xs generalizing s with
  | nil => exact h
  | cons x xs ih => exact ih (hP.counted _ h)

theorem runnerPairs (r : Runner) (root : Digest) (count : Nat) (h : P s) :
    P (r.pairs s root count).2.2 := by
  unfold Runner.pairs
  split
  · exact h
  · exact hP.pairs _ root count h

theorem inTurn (r : Runner) (x : Input) (d : Deadline) (workers : Pool.Roster)
    (answer : Option (Except Error MachinePair)) (h : P s) :
    P (r.inTurn s x d workers answer).2.2.2 := by
  rcases answer with _ | (e | pair)
  · exact hP.withPair r x d none h
  · exact hP.withPair r x d (some (.error e)) h
  · unfold Runner.inTurn
    dsimp only
    split
    · exact h
    · exact hP.onWorker r x _ pair h

theorem completeAll (r : Runner) (d : Deadline) (workers : Pool.Roster)
    (runs : List (Run × Input × Option (Except Error MachinePair))) (h : P s) :
    P (r.completeAll s d workers runs).2.2 := by
  induction runs generalizing s workers with
  | nil => exact h
  | cons run runs ih =>
    obtain ⟨run, x, answer⟩ := run
    exact ih _ (hP.deliver run _ _ (hP.inTurn r x d workers answer h))

theorem runAll (r : Runner) (root : Digest) (xs : List Input) (h : P s) :
    P (r.runAll s root xs).2 :=
  hP.pass _ _ (hP.completeAll r _ _ _ (hP.runnerPairs r root _ (hP.launchAll r root xs h)))

end OutlastsRuns

end Site

end Rerun
