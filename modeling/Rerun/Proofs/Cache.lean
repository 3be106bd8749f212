import Rerun.Cache.Basic
import Rerun.Proofs.Lookup

/-!
# Entries of a cache

What requests and the ends of builds do to the entry of a module root and to the builds.
-/

namespace Rerun.Cache

variable {α : Type} {c : Cache α} {n : Nat} {root : Digest}

/-! ## Entries -/

theorem lookup_without (c : Cache α) (root r : Digest) :
    (c.without root).lookup r = if r = root then none else c.entry? r :=
  Lookup.filter_key c.entries root r

theorem lookup_with (c : Cache α) (root : Digest) (e : Entry α) (r : Digest) :
    (c.with_ root e).lookup r = if r = root then some e else c.entry? r := by
  unfold with_
  rw [Lookup.concat, lookup_without]
  by_cases h : r = root
  · simp [h]
  · simp [h]

theorem ready?_eq_some {a : α} : c.ready? root = some a ↔ c.entry? root = some (.ready a) := by
  unfold ready?
  cases c.entry? root with
  | none => simp
  | some e => cases e <;> simp

/-! ## The end of a build -/

/-- What is known of a root after a build of it. -/
def known (outcome : Except Error α) : Option (Entry α) :=
  match outcome with
  | .ok a => some (.ready a)
  | .error _ => none

/-- The end of a build decides what is known of its root. -/
theorem entry?_finish (h : c.builds[n]? = some ⟨root, .inFlight⟩) (outcome : Except Error α)
    (r : Digest) :
    Cache.entry? (c.finish n outcome) r = if r = root then known outcome else c.entry? r := by
  unfold finish
  rw [h]
  cases outcome with
  | ok a => exact lookup_with c root (.ready a) r
  | error e => exact lookup_without c root r

theorem builds_finish (h : c.builds[n]? = some ⟨root, .inFlight⟩) (outcome : Except Error α) :
    (c.finish n outcome).builds = c.builds.set n ⟨root, .ended outcome⟩ := by
  unfold finish
  rw [h]
  cases outcome <;> rfl

/-- A build that ended is still the same one, and the others are as they were. -/
theorem getElem?_finish (h : c.builds[n]? = some ⟨root, .inFlight⟩) (outcome : Except Error α)
    (k : Nat) :
    (c.finish n outcome).builds[k]? =
      if k = n then some ⟨root, .ended outcome⟩ else c.builds[k]? := by
  obtain ⟨hlt, -⟩ := List.getElem?_eq_some_iff.1 h
  rw [builds_finish h, List.getElem?_set]
  by_cases hk : k = n
  · simp [hk, hlt]
  · simp [hk, Ne.symm hk]

/-! ## Requests -/

/-- The cache after the start of a build. -/
def started (c : Cache α) (root : Digest) : Cache α :=
  { c with
    entries := c.with_ root (.building c.builds.length)
    builds := c.builds ++ [⟨root, .inFlight⟩] }

/-- A request for a root that nothing is known of starts a build. -/
theorem request_new (h : c.entry? root = none) :
    c.request root = (.build c.builds.length, c.started root) := by
  unfold request
  rw [h]
  rfl

theorem entry?_started (c : Cache α) (root r : Digest) :
    Cache.entry? (c.started root) r =
      if r = root then some (.building c.builds.length) else c.entry? r :=
  lookup_with c root _ r

theorem getElem?_started (c : Cache α) (root : Digest) (k : Nat) :
    (c.started root).builds[k]? =
      if k = c.builds.length then some ⟨root, .inFlight⟩ else c.builds[k]? := by
  unfold started
  dsimp only
  rw [List.getElem?_append]
  by_cases hk : k < c.builds.length
  · rw [if_pos hk, if_neg (by omega)]
  · by_cases hkn : k = c.builds.length
    · simp [hkn]
    · have hpos : k - c.builds.length ≠ 0 := by omega
      simp [hk, hkn, hpos]

/-- What a request gets for a root that something is known of. -/
def ticketOf : Entry α → Ticket α
  | .ready a => .value a
  | .building n => .build n

/-- A request for another root only counts. -/
theorem request_known {e : Entry α} (h : c.entry? root = some e) :
    (c.request root).1 = ticketOf e ∧ (c.request root).2.entries = c.entries ∧
      (c.request root).2.builds = c.builds := by
  unfold request
  rw [h]
  cases e <;> exact ⟨rfl, rfl, rfl⟩

/-- A request leaves the builds as they are, or starts one more. -/
theorem request_builds (c : Cache α) (root : Digest) :
    ((c.request root).2.builds = c.builds ∨
      (c.request root).2.builds = c.builds ++ [⟨root, .inFlight⟩]) ∧
      (c.request root).2.failures = c.failures := by
  cases h : c.entry? root with
  | none =>
    rw [request_new h]
    exact ⟨.inr rfl, rfl⟩
  | some e =>
    unfold request
    rw [h]
    cases e <;> exact ⟨.inl rfl, rfl⟩

theorem getElem?_request {b : Build α} (h : c.builds[n]? = some b) (root : Digest) :
    (c.request root).2.builds[n]? = some b := by
  obtain hsame | hmore := (request_builds c root).1
  · rw [hsame, h]
  · obtain ⟨hlt, -⟩ := List.getElem?_eq_some_iff.1 h
    rw [hmore, List.getElem?_append_left hlt, h]

theorem ended_of_request {root' : Digest} {o : Except Error α}
    (h : (c.request root').2.builds[n]? = some ⟨root, .ended o⟩) :
    c.builds[n]? = some ⟨root, .ended o⟩ := by
  obtain hsame | hmore := (request_builds c root').1
  · rwa [hsame] at h
  · rw [hmore, List.getElem?_append] at h
    split at h
    · exact h
    · have hnew := List.mem_of_getElem? h
      cases List.mem_singleton.1 hnew

end Rerun.Cache
