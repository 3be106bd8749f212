import Rerun.Proofs.Cache
import Rerun.Site

/-!
# The stages of a build

What is left of the walks, the builds and the entries of a site when one of its builds gets to a
stage.
-/

namespace Rerun.Site

variable {s : Site} {root : Digest} {n : Nat}

/-! ## Walks -/

theorem lookup_walks_without (s : Site) (n k : Nat) :
    (s.depot.walks.filter (·.1 ≠ n)).lookup k =
      if k = n then none else s.depot.walks.lookup k :=
  Lookup.filter_key s.depot.walks n k

theorem lookup_reach (s : Site) (n : Nat) (root : Digest) (looks : Nat) (w : MachinePair.Walk)
    (k : Nat) :
    (s.reach n root looks (.walking w)).depot.walks.lookup k =
      if k = n then some w else s.depot.walks.lookup k := by
  show List.lookup k (s.depot.walks.filter (·.1 ≠ n) ++ [(n, w)]) = _
  rw [Lookup.concat, lookup_walks_without]
  by_cases hk : k = n <;> simp [hk]

/-- No other build gets a walk. -/
theorem inFlight_reach {looks k : Nat} {stage : MachinePair.Stage}
    (h : k ∈ (s.reach n root looks stage).inFlight) : k = n ∨ k ∈ s.inFlight := by
  have hothers : k ∈ (s.depot.walks.filter (·.1 ≠ n)).map Prod.fst → k ∈ s.inFlight := by
    intro hk
    obtain ⟨x, hx, rfl⟩ := List.mem_map.1 hk
    exact List.mem_map.2 ⟨x, (List.mem_filter.1 hx).1, rfl⟩
  cases stage with
  | walking w =>
    change k ∈ (s.depot.walks.filter (·.1 ≠ n) ++ [(n, w)]).map Prod.fst at h
    rw [List.map_append, List.mem_append] at h
    obtain h | h := h
    · exact .inr (hothers h)
    · exact .inl (List.mem_singleton.1 h)
  | ended result =>
    unfold reach at h
    dsimp only at h
    split at h
    · exact .inr (hothers h)
    · exact .inr h

/-! ## Builds -/

section Finish

variable {outcome : Except Error MachinePair}
  (hb : s.depot.cache.builds[n]? = some (Build.mk root .inFlight)) (looks : Nat)

include hb

theorem entry?_finishBuild (r : Digest) :
    (s.finishBuild n looks outcome).depot.cache.entry? r =
      if r = root then Cache.known outcome else s.depot.cache.entry? r :=
  Cache.entry?_finish hb outcome r

theorem builds_finishBuild (k : Nat) :
    (s.finishBuild n looks outcome).depot.cache.builds[k]? =
      if k = n then some (Build.mk root (.ended outcome)) else s.depot.cache.builds[k]? :=
  Cache.getElem?_finish hb outcome k

end Finish

/-! ## Requests -/

/-- A request for a root that nothing is known of begins a build at once. -/
theorem request_started (he : s.depot.cache.entry? root = none) :
    s.request root = (.build s.depot.cache.builds.length, startBuild
      { s with depot := { s.depot with cache := s.depot.cache.started root } }
        s.depot.cache.builds.length root) := by
  unfold request
  rw [he, Cache.request_new he]
  rfl

/-- A build that begins gets a walk, and no other one does. -/
theorem inFlight_startBuild {k : Nat} (h : k ∈ (s.startBuild n root).inFlight) :
    k = n ∨ k ∈ s.inFlight := by
  let begun := MachinePair.start s.backend s.depot.files (s.depot.locator.machinePath root) root
    s.buildDeadline s.host
  have hreach := @inFlight_reach { s with host := begun.2 } root n 0 k begun.1 h
  exact hreach

end Rerun.Site
