import Rerun.Proofs.Cache

/-!
# What can happen to a cache

Requests are counted, builds are started, and builds that are in flight come to an end (`Move`).
Whatever happens, a cache agrees with its builds (`Sound.move`), and what was found out once stays
known (`Move.grows`).
-/

namespace Rerun

namespace Build.Phase

variable {α : Type}

/-- What a build with a number leaves known of its root. -/
def entry? (n : Nat) : Build.Phase α → Option (Cache.Entry α)
  | .inFlight => some (.building n)
  | .ended (.ok a) => some (.ready a)
  | .ended (.error _) => none
  | .dropped => none

def isInFlight : Build.Phase α → Bool
  | .inFlight => true
  | _ => false

def isValue : Build.Phase α → Bool
  | .ended (.ok _) => true
  | _ => false

def isFailure : Build.Phase α → Bool
  | .ended (.error _) => true
  | _ => false

def isDropped : Build.Phase α → Bool
  | .dropped => true
  | _ => false

/-- Whether a build ended, well or not. -/
def isEnded : Build.Phase α → Bool
  | .ended _ => true
  | _ => false

end Build.Phase

/-- Whoever is told something is told of a build that is over. -/
theorem Build.isInFlight_of_outcome {α : Type} {root : Digest} {phase : Build.Phase α}
    {o : Except Error α} (h : (Build.mk root phase).outcome? = some o) :
    phase.isInFlight = false := by
  cases phase with
  | inFlight => cases h
  | ended o => rfl
  | dropped => rfl

namespace Cache

variable {α : Type} {c c' c'' : Cache α} {n : Nat} {root : Digest} {phase : Build.Phase α}

/-- The build with a number is a build of a root, and is in flight. -/
def IsInFlight (c : Cache α) (n : Nat) (root : Digest) : Prop :=
  c.builds[n]? = some ⟨root, .inFlight⟩

theorem IsInFlight.root_eq {root' : Digest} (h : c.IsInFlight n root) (h' : c.IsInFlight n root') :
    root = root' :=
  congrArg Build.root (Option.some.inj (h.symm.trans h'))

/-- Whoever waits for a build is told how it ended. -/
theorem answer?_build {b : Build α} (h : c.builds[n]? = some b) :
    c.answer? (.build n) = b.outcome? := by
  unfold answer?
  dsimp only
  rw [h]
  rfl

theorem IsInFlight.answer?_eq (h : c.IsInFlight n root) : c.answer? (.build n) = none :=
  answer?_build h

/-- How many builds of a root were started. -/
def begun (c : Cache α) (root : Digest) : Nat := c.builds.countP fun b => b.root = root

/-- How many builds are in flight. -/
def inFlightCount (c : Cache α) : Nat := c.builds.countP (·.phase.isInFlight)

/-- How many builds were given up. -/
def droppedCount (c : Cache α) : Nat := c.builds.countP (·.phase.isDropped)

/-- How many builds ended. -/
def endedCount (c : Cache α) : Nat := c.builds.countP (·.phase.isEnded)

/-- The cache after a build of a root came to an end. -/
def settled (c : Cache α) (n : Nat) (root : Digest) (phase : Build.Phase α) : Cache α :=
  { c with
    entries :=
      match phase.entry? n with
      | some e => c.with_ root e
      | none => c.without root
    builds := c.builds.set n ⟨root, phase⟩
    failures := c.failures + if phase.isFailure then 1 else 0 }

/-- What can happen to a cache. -/
inductive Move (c : Cache α) : Cache α → Prop where
  /-- At most a request was counted. -/
  | counted {c' : Cache α} (hentries : c'.entries = c.entries) (hbuilds : c'.builds = c.builds)
      (hfailures : c'.failures = c.failures) : Move c c'
  | started {root : Digest} (h : c.entry? root = none) : Move c (c.started root)
  | settled {n : Nat} {root : Digest} {phase : Build.Phase α} (h : c.IsInFlight n root)
      (hp : phase.isInFlight = false) : Move c (c.settled n root phase)

/-! ## The entries and the builds -/

theorem entry?_settled (c : Cache α) (n : Nat) (root : Digest) (phase : Build.Phase α)
    (r : Digest) :
    Cache.entry? (c.settled n root phase) r = if r = root then phase.entry? n else c.entry? r := by
  unfold settled entry?
  dsimp only
  cases phase.entry? n with
  | none => exact lookup_without c root r
  | some e => exact lookup_with c root e r

theorem getElem?_settled (h : c.IsInFlight n root) (phase : Build.Phase α) (k : Nat) :
    (c.settled n root phase).builds[k]? = if k = n then some ⟨root, phase⟩ else c.builds[k]? := by
  obtain ⟨hlt, -⟩ := List.getElem?_eq_some_iff.1 h
  unfold settled
  dsimp only
  rw [List.getElem?_set]
  by_cases hk : k = n
  · simp [hk, hlt]
  · simp [hk, Ne.symm hk]

/-- The end of a build takes it out of one count and puts it into another. -/
theorem countP_settled (h : c.IsInFlight n root) (p : Build α → Bool) :
    (c.settled n root phase).builds.countP p + (if p ⟨root, .inFlight⟩ then 1 else 0) =
      c.builds.countP p + (if p ⟨root, phase⟩ then 1 else 0) := by
  obtain ⟨hlt, hn⟩ := List.getElem?_eq_some_iff.1 h
  have hcount : (c.builds.set n ⟨root, phase⟩).countP p =
      c.builds.countP p - (if p c.builds[n] then 1 else 0) + (if p ⟨root, phase⟩ then 1 else 0) :=
    List.countP_set hlt
  have hpos : p c.builds[n] = true → 0 < c.builds.countP p := fun hp =>
    List.countP_pos_iff.2 ⟨c.builds[n], List.getElem_mem hlt, hp⟩
  rw [hn] at hcount hpos
  unfold settled
  dsimp only
  rw [hcount]
  cases hp : p ⟨root, .inFlight⟩ with
  | false => simp
  | true =>
    have := hpos hp
    simp only [if_true]
    omega

theorem countP_started (c : Cache α) (root : Digest) (p : Build α → Bool) :
    (c.started root).builds.countP p =
      c.builds.countP p + (if p ⟨root, .inFlight⟩ then 1 else 0) := by
  unfold started
  dsimp only
  rw [List.countP_append, List.countP_singleton]

/-! ## The roots that are ready -/

/-- The root of an entry with a value. -/
def readyRoot? : Digest × Entry α → Option Digest
  | (root, .ready _) => some root
  | (_, .building _) => none

theorem readyRoots_eq (c : Cache α) : c.readyRoots = c.entries.filterMap readyRoot? := by
  unfold readyRoots
  congr 1
  funext x
  obtain ⟨root, e⟩ := x
  cases e <;> rfl

theorem filterMap_filter (xs : List (Digest × Entry α)) (hr : ∀ a, (root, .ready a) ∉ xs) :
    (xs.filter fun (r, _) => r ≠ root).filterMap readyRoot? = xs.filterMap readyRoot? := by
  induction xs with
  | nil => rfl
  | cons x xs ih =>
    obtain ⟨r, e⟩ := x
    have ih := ih fun a h => hr a (List.mem_cons_of_mem _ h)
    by_cases h : r = root
    · subst h
      rw [List.filter_cons_of_neg (by simp), ih]
      cases e with
      | building n => rfl
      | ready a => exact absurd List.mem_cons_self (hr a)
    · rw [List.filter_cons_of_pos (by simpa using h), List.filterMap_cons, List.filterMap_cons, ih]

/-- Without the entry of a root that is not ready, the same roots are ready. -/
theorem filterMap_without (hkeys : (c.entries.map Prod.fst).Nodup)
    (hr : ∀ a, c.entry? root ≠ some (.ready a)) :
    (c.without root).filterMap readyRoot? = c.readyRoots := by
  rw [readyRoots_eq]
  exact filterMap_filter c.entries fun a h => hr a (Lookup.eq_some_of_mem hkeys h)

theorem readyRoots_started (hkeys : (c.entries.map Prod.fst).Nodup)
    (hr : ∀ a, c.entry? root ≠ some (.ready a)) :
    Cache.readyRoots (c.started root) = c.readyRoots := by
  rw [readyRoots_eq]
  show List.filterMap readyRoot? (c.without root ++ [_]) = _
  rw [List.filterMap_append, filterMap_without hkeys hr]
  exact List.append_nil _

theorem readyRoots_settled (hkeys : (c.entries.map Prod.fst).Nodup)
    (hr : ∀ a, c.entry? root ≠ some (.ready a)) (n : Nat) (phase : Build.Phase α) :
    Cache.readyRoots (c.settled n root phase) =
      c.readyRoots ++ if phase.isValue then [root] else [] := by
  have hwithout := filterMap_without hkeys hr
  rw [readyRoots_eq]
  unfold settled
  dsimp only
  cases phase with
  | inFlight =>
    show List.filterMap readyRoot? (c.without root ++ [_]) = _
    rw [List.filterMap_append, hwithout]
    rfl
  | ended o =>
    cases o with
    | ok a =>
      show List.filterMap readyRoot? (c.without root ++ [_]) = _
      rw [List.filterMap_append, hwithout]
      rfl
    | error e => exact hwithout.trans (List.append_nil _).symm
  | dropped => exact hwithout.trans (List.append_nil _).symm

/-! ## A cache agrees with its builds -/

/-- The entries, the builds and the counters of a cache tell the same story. -/
structure Sound (c : Cache α) : Prop where
  keys : (c.entries.map Prod.fst).Nodup
  building : ∀ n root, c.entry? root = some (.building n) ↔ c.IsInFlight n root
  values : c.readyRoots.length = c.builds.countP (·.phase.isValue)
  failures : c.failures = c.builds.countP (·.phase.isFailure)

theorem Sound.new : Sound ({} : Cache α) where
  keys := List.nodup_nil
  building n root := by
    unfold entry? IsInFlight
    simp
  values := rfl
  failures := rfl

/-- At most one build of a root is in flight. -/
theorem Sound.unique (hc : c.Sound) {m n : Nat} (hm : c.IsInFlight m root)
    (hn : c.IsInFlight n root) : m = n := by
  have h := (hc.building m root).2 hm
  rw [(hc.building n root).2 hn] at h
  cases h
  rfl

theorem Sound.entry?_inFlight (hc : c.Sound) (h : c.IsInFlight n root) :
    c.entry? root = some (.building n) := (hc.building n root).2 h

theorem nodup_without (hkeys : (c.entries.map Prod.fst).Nodup) (root : Digest) :
    ((c.without root).map Prod.fst).Nodup :=
  hkeys.sublist (List.filter_sublist.map Prod.fst)

theorem nodup_with (hkeys : (c.entries.map Prod.fst).Nodup) (root : Digest) (e : Entry α) :
    ((c.with_ root e).map Prod.fst).Nodup := by
  unfold with_
  rw [List.map_append, List.nodup_append]
  refine ⟨nodup_without hkeys root, List.pairwise_singleton _ root, ?_⟩
  intro r hr r' hr'
  obtain ⟨x, hx, rfl⟩ := List.mem_map.1 hr
  have hne : x.1 ≠ root := by simpa using (List.mem_filter.1 hx).2
  rwa [List.mem_singleton.1 hr']

theorem Sound.started (hc : c.Sound) (h : c.entry? root = none) : (c.started root).Sound where
  keys := nodup_with hc.keys root _
  building n r := by
    have hfresh : ¬ c.IsInFlight c.builds.length r := by
      unfold IsInFlight
      rw [List.getElem?_eq_none (Nat.le_refl _)]
      nofun
    have hb := hc.building n r
    unfold IsInFlight
    rw [entry?_started, getElem?_started]
    by_cases hr : r = root
    · subst hr
      rw [h] at hb
      rw [if_pos rfl]
      by_cases hn : n = c.builds.length
      · simp [hn]
      · rw [if_neg hn]
        refine ⟨fun h' => ?_, fun h' => absurd (hb.2 h') nofun⟩
        cases h'
        exact absurd rfl hn
    · rw [if_neg hr]
      by_cases hn : n = c.builds.length
      · subst hn
        rw [if_pos rfl]
        refine ⟨fun h' => absurd (hb.1 h') hfresh, fun h' => ?_⟩
        cases h'
        exact absurd rfl hr
      · rw [if_neg hn]
        exact hb
  values := by
    have hready : ∀ a, c.entry? root ≠ some (.ready a) := by simp [h]
    rw [countP_started, readyRoots_started hc.keys hready]
    exact hc.values
  failures := by
    rw [countP_started]
    exact hc.failures

theorem Sound.settled (hc : c.Sound) (h : c.IsInFlight n root) (hp : phase.isInFlight = false) :
    (c.settled n root phase).Sound where
  keys := by
    unfold Cache.settled
    dsimp only
    cases phase.entry? n with
    | none => exact nodup_without hc.keys root
    | some e => exact nodup_with hc.keys root e
  building k r := by
    have hb := hc.building k r
    have hphase : phase ≠ .inFlight := by
      rintro rfl
      cases hp
    have hentry : phase.entry? n ≠ some (.building k) := by
      cases phase with
      | inFlight => cases hp
      | ended o => cases o <;> exact nofun
      | dropped => exact nofun
    unfold IsInFlight
    rw [entry?_settled, getElem?_settled h]
    by_cases hr : r = root
    · subst hr
      rw [if_pos rfl]
      refine ⟨fun h' => absurd h' hentry, fun h' => ?_⟩
      by_cases hk : k = n
      · rw [if_pos hk] at h'
        cases h'
        exact absurd rfl hphase
      · rw [if_neg hk] at h'
        exact absurd (hc.unique h' h) hk
    · rw [if_neg hr, hb]
      by_cases hk : k = n
      · subst hk
        rw [if_pos rfl]
        refine ⟨fun h' => ?_, fun h' => ?_⟩
        · cases h.symm.trans h'
          exact absurd rfl hr
        · cases h'
          exact absurd rfl hr
      · rw [if_neg hk]
        exact Iff.rfl
  values := by
    have hready : ∀ a, c.entry? root ≠ some (.ready a) := by simp [hc.entry?_inFlight h]
    have hcount : (c.settled n root phase).builds.countP (·.phase.isValue) =
        c.builds.countP (·.phase.isValue) + if phase.isValue then 1 else 0 :=
      countP_settled h (·.phase.isValue)
    rw [hcount, readyRoots_settled hc.keys hready, List.length_append, hc.values]
    cases phase.isValue <;> rfl
  failures := by
    have hcount : (c.settled n root phase).builds.countP (·.phase.isFailure) =
        c.builds.countP (·.phase.isFailure) + if phase.isFailure then 1 else 0 :=
      countP_settled h (·.phase.isFailure)
    rw [hcount, ← hc.failures]
    rfl

theorem Sound.move (hc : c.Sound) (h : c.Move c') : c'.Sound := by
  cases h with
  | counted hentries hbuilds hfailures =>
    constructor
    · rw [hentries]
      exact hc.keys
    · intro n root
      unfold entry? IsInFlight
      rw [hentries, hbuilds]
      exact hc.building n root
    · rw [readyRoots_eq, hentries, hbuilds, ← readyRoots_eq]
      exact hc.values
    · rw [hfailures, hbuilds]
      exact hc.failures
  | started h => exact hc.started h
  | settled h hp => exact hc.settled h hp

/-! ## The operations on a cache are moves -/

theorem finish_inFlight {c : Cache α} {n : Nat} {root : Digest} (h : c.IsInFlight n root)
    (o : Except Error α) : c.finish n o = c.settled n root (.ended o) := by
  unfold IsInFlight at h
  unfold finish
  rw [h]
  cases o <;> rfl

/-- A build that is over does not end again. -/
theorem finish_over {c : Cache α} {n : Nat} (h : ∀ root, ¬ c.IsInFlight n root)
    (o : Except Error α) : c.finish n o = c := by
  unfold finish
  cases hb : c.builds[n]? with
  | none => rfl
  | some b =>
    obtain ⟨root, phase⟩ := b
    cases phase with
    | inFlight => exact absurd hb (h root)
    | ended o => rfl
    | dropped => rfl

/-- The mark that a build takes away is its own. -/
theorem Sound.drop_inFlight {c : Cache α} {n : Nat} {root : Digest} (hc : c.Sound)
    (h : c.IsInFlight n root) : c.drop n = c.settled n root .dropped := by
  have hbuilding : c.isBuilding root = true := by
    unfold isBuilding
    rw [hc.entry?_inFlight h]
  unfold IsInFlight at h
  unfold drop
  rw [h]
  dsimp only
  rw [hbuilding]
  rfl

theorem drop_over {c : Cache α} {n : Nat} (h : ∀ root, ¬ c.IsInFlight n root) : c.drop n = c := by
  unfold drop
  cases hb : c.builds[n]? with
  | none => rfl
  | some b =>
    obtain ⟨root, phase⟩ := b
    cases phase with
    | inFlight => exact absurd hb (h root)
    | ended o => rfl
    | dropped => rfl

theorem request_move (c : Cache α) (root : Digest) : c.Move (c.request root).2 := by
  cases h : c.entry? root with
  | none =>
    rw [request_new h]
    exact .started h
  | some e =>
    unfold request
    rw [h]
    cases e <;> exact .counted rfl rfl rfl

/-! ## Counts -/

/-- Every build has a value, or failed, or is in flight, or was given up. -/
theorem length_eq_counts (builds : List (Build α)) :
    builds.length = builds.countP (·.phase.isFailure) + builds.countP (·.phase.isValue) +
      builds.countP (·.phase.isInFlight) + builds.countP (·.phase.isDropped) := by
  induction builds with
  | nil => rfl
  | cons b bs ih =>
    obtain ⟨root, phase⟩ := b
    rw [List.length_cons, ih]
    simp only [List.countP_cons]
    cases phase with
    | inFlight =>
      simp [Build.Phase.isFailure, Build.Phase.isValue, Build.Phase.isInFlight,
        Build.Phase.isDropped]
      omega
    | ended o =>
      cases o <;>
      simp [Build.Phase.isFailure, Build.Phase.isValue, Build.Phase.isInFlight,
        Build.Phase.isDropped] <;> omega
    | dropped =>
      simp [Build.Phase.isFailure, Build.Phase.isValue, Build.Phase.isInFlight,
        Build.Phase.isDropped]
      omega

/-- The builds of a cache, by what became of them. -/
theorem Sound.builds_length (hc : c.Sound) :
    c.builds.length = c.failures + c.readyRoots.length + c.inFlightCount + c.droppedCount := by
  rw [hc.failures, hc.values]
  exact length_eq_counts c.builds

theorem endedCount_request (c : Cache α) (root : Digest) :
    (c.request root).2.endedCount = c.endedCount := by
  unfold endedCount
  obtain hsame | hmore := (request_builds c root).1
  · rw [hsame]
  · rw [hmore, List.countP_append]
    rfl

/-- Every build ended, or is in flight, or was given up. -/
theorem length_eq_endedCount (c : Cache α) :
    c.builds.length = c.endedCount + c.inFlightCount + c.droppedCount := by
  unfold endedCount inFlightCount droppedCount
  induction c.builds with
  | nil => rfl
  | cons b bs ih =>
    obtain ⟨root, phase⟩ := b
    rw [List.length_cons, ih]
    simp only [List.countP_cons]
    cases phase <;>
      simp [Build.Phase.isEnded, Build.Phase.isInFlight, Build.Phase.isDropped] <;> omega

/-! ## What was found out stays known -/

/-- What was found out once is still known later. -/
structure Grows (c c' : Cache α) : Prop where
  ready : ∀ root a, c.entry? root = some (.ready a) →
    Cache.entry? c' root = some (.ready a) ∧ c'.begun root = c.begun root
  builds : ∀ (n : Nat) root phase, c.builds[n]? = some (Build.mk root phase) →
    ∃ phase', c'.builds[n]? = some (Build.mk root phase') ∧
      (phase.isInFlight = false → phase' = phase)

theorem Grows.of_eq (hentries : c'.entries = c.entries) (hbuilds : c'.builds = c.builds) :
    c.Grows c' where
  ready root a h := by
    unfold entry? begun
    rw [hentries, hbuilds]
    exact ⟨h, rfl⟩
  builds n root phase h := ⟨phase, by rw [hbuilds, h], fun _ => rfl⟩

theorem Grows.refl (c : Cache α) : c.Grows c := .of_eq rfl rfl

theorem Grows.trans (h : c.Grows c') (h' : c'.Grows c'') : c.Grows c'' where
  ready root a hr := by
    obtain ⟨hr', hbegun⟩ := h.ready root a hr
    obtain ⟨hr'', hbegun'⟩ := h'.ready root a hr'
    exact ⟨hr'', hbegun'.trans hbegun⟩
  builds n root phase hb := by
    obtain ⟨phase', hb', hkept⟩ := h.builds n root phase hb
    obtain ⟨phase'', hb'', hkept'⟩ := h'.builds n root phase' hb'
    refine ⟨phase'', hb'', fun hp => ?_⟩
    have hp' := hkept hp
    rw [hkept' (hp' ▸ hp), hp']

/-- What the holder of a ticket for a build was told it is told later. -/
theorem Grows.answer? (h : c.Grows c') {n : Nat} {o : Except Error α}
    (ho : Cache.answer? c (.build n) = some o) : Cache.answer? c' (.build n) = some o := by
  obtain ⟨⟨root, phase⟩, hb, ho⟩ := Option.bind_eq_some_iff.1 ho
  obtain ⟨phase', hb', hkept⟩ := h.builds n root phase hb
  rw [answer?_build hb', hkept (Build.isInFlight_of_outcome ho)]
  exact ho

/-- A root that is ready has no build in flight, so that what happens does not touch it. -/
theorem Move.grows (hc : c.Sound) (h : c.Move c') : c.Grows c' := by
  cases h with
  | counted hentries hbuilds _ => exact .of_eq hentries hbuilds
  | started h =>
    rename_i root
    constructor
    · intro r a hr
      have hne : r ≠ root := by
        rintro rfl
        cases h.symm.trans hr
      unfold begun
      rw [entry?_started, if_neg hne, countP_started]
      exact ⟨hr, by simp [Ne.symm hne]⟩
    · intro n r phase hb
      obtain ⟨hlt, -⟩ := List.getElem?_eq_some_iff.1 hb
      rw [getElem?_started, if_neg (Nat.ne_of_lt hlt)]
      exact ⟨phase, hb, fun _ => rfl⟩
  | settled h hp =>
    rename_i n root phase
    constructor
    · intro r a hr
      have hne : r ≠ root := by
        rintro rfl
        cases (hc.entry?_inFlight h).symm.trans hr
      have hcount : (c.settled n root phase).builds.countP (fun b => b.root = r) + _ = _ :=
        countP_settled h fun b => b.root = r
      unfold begun
      rw [entry?_settled, if_neg hne]
      exact ⟨hr, by simpa using hcount⟩
    · intro k r phase' hb
      rw [getElem?_settled h]
      by_cases hk : k = n
      · subst hk
        cases hb.symm.trans h
        exact ⟨phase, by rw [if_pos rfl], nofun⟩
      · exact ⟨phase', by rw [if_neg hk, hb], fun _ => rfl⟩

end Cache

end Rerun
