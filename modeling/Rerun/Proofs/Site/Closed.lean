import Rerun.Proofs.Site.Lasting
import Rerun.Proofs.Site.Turn

/-!
# Closed depots

A depot that was closed while nothing was being built goes on handing out the pairs that it has, and
refuses everything else at once. It builds nothing, keeps nothing and writes nothing (`pair_shut`),
whatever work is done at its site (`lasting_dormant`).
-/

namespace Rerun

/-- Nothing is built after closing time. -/
theorem MachinePair.start_expired {d : Deadline} (h : d.isExpired = true) (backend : Backend)
    (files : Config.MachineFiles) (directory : String) (root : Digest) (host : Host) :
    MachinePair.start backend files directory root d host =
      (.ended (fail (.buildFailed root "loader is closed")), host) := by
  unfold start
  rw [h]
  rfl

namespace Cache

variable {α : Type} {c : Cache α} {root : Digest}

theorem entry?_eq_none (h : c.entry? root = none) {x : Digest × Entry α} (hx : x ∈ c.entries) :
    x.1 ≠ root := by
  intro hr
  unfold entry? at h
  have hne := List.lookup_eq_none_iff.1 h x hx
  simp [hr] at hne

/-- Whether there is a value. -/
def Entry.isReady : Entry α → Bool
  | .ready _ => true
  | .building _ => false

theorem isBuilding_eq_false (h : c.entries.all (·.2.isReady) = true) (root : Digest) :
    c.isBuilding root = false := by
  unfold isBuilding
  cases he : c.entry? root with
  | none => rfl
  | some e =>
    have hready := List.all_eq_true.1 h _ (Lookup.mem_of_eq_some he)
    cases e with
    | ready a => rfl
    | building n => cases hready

/-- A build that starts and fails leaves the entries as they are. -/
theorem entries_failed (h : c.entry? root = none) (e : Error) :
    ((c.started root).finish c.builds.length (.error e)).entries = c.entries := by
  have hothers : ∀ x ∈ c.entries, x.1 ≠ root := fun _ hx => entry?_eq_none h hx
  have hnew : (c.started root).builds[c.builds.length]? = some ⟨root, .inFlight⟩ := by
    rw [getElem?_started, if_pos rfl]
  unfold finish
  rw [hnew]
  simp only [without, started, with_, List.filter_append, List.filter_filter]
  simpa using hothers

end Cache

namespace Site

variable {s s' s'' : Site} {root : Digest} {n : Nat}

/-! ## Counting -/

/-- Nothing was done at a site but counting: it has its machines, its files and its time. -/
def Rests (s s' : Site) : Prop :=
  ∃ metrics cache, cache.entries = s.depot.cache.entries ∧
    s' = { s with metrics, depot := { s.depot with cache } }

theorem Rests.refl (s : Site) : s.Rests s := ⟨s.metrics, s.depot.cache, rfl, rfl⟩

theorem Rests.trans (h : s.Rests s') (h' : s'.Rests s'') : s.Rests s'' := by
  obtain ⟨metrics, cache, hc, rfl⟩ := h
  obtain ⟨metrics', cache', hc', rfl⟩ := h'
  exact ⟨metrics', cache', hc'.trans hc, rfl⟩

theorem Rests.counted (metrics : Metrics) : s.Rests { s with metrics } :=
  ⟨metrics, s.depot.cache, rfl, rfl⟩

/-! ## Closing -/

theorem walks_abort (s : Site) (walks : List (Nat × MachinePair.Walk)) :
    (s.abort walks).depot.walks = s.depot.walks.filter (·.1 ∉ walks.map Prod.fst) := by
  induction walks generalizing s with
  | nil => simp [abort]
  | cons x walks ih =>
    obtain ⟨n, w⟩ := x
    refine (ih _).trans ?_
    simp only [finishBuild, List.filter_filter, List.map_cons, List.mem_cons, not_or,
      Bool.decide_and]
    congr 1
    funext y
    exact Bool.and_comm _ _

theorem abort_frame (s : Site) (walks : List (Nat × MachinePair.Walk)) :
    (s.abort walks).depot.isClosed = s.depot.isClosed ∧ (s.abort walks).host = s.host := by
  induction walks generalizing s with
  | nil => exact ⟨rfl, rfl⟩
  | cons x walks ih =>
    obtain ⟨hclosed, hhost⟩ := ih (s.finishBuild x.1 x.2.deadline.spent
      (.error (.buildFailed x.2.root (MachinePair.hostIoReason .cancelled))))
    exact ⟨hclosed, hhost⟩

/-- A depot that was closed and builds nothing. -/
structure IsShut (s : Site) : Prop where
  isClosed : s.depot.isClosed = true
  walks : s.depot.walks = []
  isIdle : ∀ root, s.depot.cache.isBuilding root = false

theorem closeDepot_isShut (h : ∀ root, s.closeDepot.depot.cache.isBuilding root = false) :
    s.closeDepot.IsShut := by
  let closed : Site := { s with depot := { s.depot with isClosed := true } }
  refine ⟨(closed.abort_frame s.depot.walks).1, ?_, h⟩
  refine (closed.walks_abort s.depot.walks).trans ?_
  rw [List.filter_eq_nil_iff]
  intro x hx
  simpa using ⟨x.2, hx⟩

theorem Rests.isShut (h : s.Rests s') (hs : s.IsShut) : s'.IsShut := by
  obtain ⟨metrics, cache, hc, rfl⟩ := h
  refine ⟨hs.isClosed, hs.walks, fun root => ?_⟩
  have hsame : cache.isBuilding root = s.depot.cache.isBuilding root := by
    unfold Cache.isBuilding Cache.entry?
    rw [hc]
  exact hsame.trans (hs.isIdle root)

/-- To close it again changes nothing. -/
theorem IsShut.closeDepot_eq (h : s.IsShut) : s.closeDepot = s := by
  have hsame : { s with depot := { s.depot with isClosed := true } } = s := by rw [← h.isClosed]
  show abort { s with depot := { s.depot with isClosed := true } } s.depot.walks = s
  rw [hsame, h.walks]
  rfl

/-! ## Requests -/

/-- What a closed depot tells whoever asks for a pair. -/
def lastWord (s : Site) (root : Digest) : Except Error MachinePair :=
  match s.depot.cache.ready? root with
  | some pair => .ok pair
  | none => .error (.buildFailed root "loader is closed")

theorem lastWord_ready {pair : MachinePair} (h : s.depot.cache.ready? root = some pair) :
    s.lastWord root = .ok pair := by
  unfold lastWord
  rw [h]

theorem startBuild_closed (h : s.depot.isClosed = true) (n : Nat) (root : Digest) :
    s.startBuild n root =
      s.finishBuild n 0 (.error (.buildFailed root "loader is closed")) := by
  unfold startBuild
  rw [MachinePair.start_expired (buildDeadline_closed h)]
  rfl

/-- A build that fails at once leaves nothing but counts. -/
theorem rests_failed (hw : s.depot.walks = []) (he : s.depot.cache.entry? root = none)
    (e : Error) : s.Rests
      (finishBuild { s with depot := { s.depot with cache := s.depot.cache.started root } }
        s.depot.cache.builds.length 0 (.error e)) := by
  refine ⟨s.metrics.recordBuild (s.nanos 0) false, _, Cache.entries_failed he e, ?_⟩
  have hnone : s.depot.walks.filter (·.1 ≠ s.depot.cache.builds.length) = s.depot.walks := by
    rw [hw]
    rfl
  unfold finishBuild
  dsimp only
  rw [hnone]
  rfl

/-- Without walks nothing takes time. -/
theorem goOn_idle (h : s.depot.walks = []) (pause : Option Nat) (n : Nat) :
    s.goOn pause n = (0, s) := by
  unfold goOn
  rw [h]
  rfl

theorem await_idle (h : s.depot.walks = []) (patience : Option Nat)
    (ticket : Cache.Ticket MachinePair) : s.await patience ticket = (0, s) := by
  cases ticket with
  | value pair => rfl
  | build n =>
    unfold await inFlight
    dsimp only
    rw [goOn_idle h, h]
    rfl

theorem pass_idle (h : s.depot.walks = []) (looks : Nat) : s.pass looks s.inFlight = s := by
  unfold inFlight
  rw [h]
  rfl

theorem request_shut (h : s.IsShut) (root : Digest) :
    (s.request root).2.depot.walks = [] ∧ s.Rests (s.request root).2 ∧
      (s.request root).2.depot.cache.answer? (s.request root).1 = some (s.lastWord root) := by
  cases he : s.depot.cache.entry? root with
  | none =>
    -- the build that the request starts fails at once
    let c := s.depot.cache
    let e : Error := .buildFailed root "loader is closed"
    have hasked : s.request root = (.build c.builds.length,
        finishBuild { s with depot := { s.depot with cache := c.started root } }
          c.builds.length 0 (.error e)) := by
      rw [request_started he]
      exact congrArg (Prod.mk _) (startBuild_closed (by exact h.isClosed) _ root)
    have hnew : (c.started root).builds[c.builds.length]? = some ⟨root, .inFlight⟩ := by
      rw [Cache.getElem?_started, if_pos rfl]
    have hword : s.lastWord root = .error e := by
      unfold lastWord Cache.ready?
      rw [he]
    rw [hasked, hword]
    have hrests := rests_failed h.walks he e
    refine ⟨(hrests.isShut h).walks, hrests, ?_⟩
    unfold Cache.answer?
    dsimp only
    rw [builds_finishBuild hnew, if_pos rfl]
    rfl
  | some entry =>
    cases entry with
    | building n =>
      have hidle := h.isIdle root
      unfold Cache.isBuilding at hidle
      rw [he] at hidle
      cases hidle
    | ready pair =>
      have hasked : s.request root = (.value pair, { s with
          depot := { s.depot with
            cache := { s.depot.cache with hits := s.depot.cache.hits + 1 } } }) := by
        unfold request Cache.request
        rw [he]
        rfl
      rw [hasked, lastWord_ready (Cache.ready?_eq_some.2 he)]
      refine ⟨h.walks, ⟨s.metrics, _, ?_, rfl⟩, rfl⟩
      rfl

/-- A closed depot has its last word at once. -/
theorem pair_shut (h : s.IsShut) (patience : Option Nat) (root : Digest) :
    (s.pair patience root).1 = some (s.lastWord root) ∧ (s.pair patience root).2.1 = 0 ∧
      s.Rests (s.pair patience root).2.2 := by
  obtain ⟨hwalks, hrests, hanswer⟩ := request_shut h root
  unfold pair
  dsimp only
  rw [await_idle hwalks]
  exact ⟨hanswer, rfl, hrests⟩

/-! ## Work -/

/-- A site as it came out of a closed one: it is as closed, and has the same pairs and files. -/
structure Dormant (s₀ s : Site) : Prop where
  isShut : s.IsShut
  entries : s.depot.cache.entries = s₀.depot.cache.entries
  files : s.host.files = s₀.host.files

theorem Dormant.lastWord_eq (h : Dormant s s') (root : Digest) :
    s'.lastWord root = s.lastWord root := by
  unfold lastWord Cache.ready? Cache.entry?
  rw [h.entries]

theorem Dormant.rests (h : Dormant s s') (hr : s'.Rests s'') : Dormant s s'' := by
  have hshut := hr.isShut h.isShut
  obtain ⟨metrics, cache, hc, rfl⟩ := hr
  exact ⟨hshut, hc.trans h.entries, h.files⟩

theorem lasting_dormant (s₀ : Site) : Lasting (Dormant s₀) where
  counted metrics h := h.rests (.counted metrics)
  withHost hf h := ⟨⟨h.isShut.isClosed, h.isShut.walks, h.isShut.isIdle⟩, h.entries,
    hf.trans h.files⟩
  request root h := h.rests (request_shut h.isShut root).2.1
  goOn pause n h := by rwa [goOn_idle h.isShut.walks]

end Site

end Rerun
