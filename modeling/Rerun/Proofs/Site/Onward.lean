import Rerun.Proofs.Site.Reach
import Rerun.Proofs.Site.Yields

/-!
# What builds leave behind

However far the builds of a site have come, each of them is on its way to what its directory yielded
in the beginning (`After`), and what was found out once stays known (`Grows`).
-/

namespace Rerun.Site

open MachinePair (firstWalk frozen)

variable {s₀ s s' s'' : Site} {root : Digest}

/-! ## After any requests -/

/-- A walk is on the way of the program that a module root has to walk with. -/
def OnWay (s : Site) (w : MachinePair.Walk) : Prop :=
  ∃ p m d, s.Walks p.root p ∧ (Machine.ofProgram p).Ahead m ∧ d.limit = none ∧
    w = { firstWalk p (s.snapshotPath p.root) d with hostIo := .plain m false none }

/-- What holds of a site that came out of another one, but that the builds in `busy` may be in
flight without a walk. -/
structure AfterBut (busy : Nat → Prop) (s₀ s : Site) : Prop where
  backend : s.backend = s₀.backend
  clock : s.clock = s₀.clock
  locator : s.depot.locator = s₀.depot.locator
  names : s.depot.files = s₀.depot.files
  isOpen : s.depot.isClosed = false
  intact : ∀ root, s₀.Intact root s.host.files
  ready : ∀ root pair, s.depot.cache.entry? root = some (.ready pair) → s₀.Yields root (.ok pair)
  building : ∀ (root : Digest) (n : Nat), s.depot.cache.entry? root = some (.building n) →
    ∃ phase, s.depot.cache.builds[n]? = some (Build.mk root phase)
  builds : ∀ (n : Nat) root phase, s.depot.cache.builds[n]? = some (Build.mk root phase) →
    phase = .inFlight ∧ (busy n ∨ ∃ w, s.depot.walks.lookup n = some w) ∨
      ∃ o, phase = .ended o ∧ s₀.Yields root o
  walks : ∀ (n : Nat) w, s.depot.walks.lookup n = some w →
    s₀.OnWay w ∧ s.depot.cache.builds[n]? = some (Build.mk w.root .inFlight)

/-- What holds of a site that came out of another one. -/
abbrev After (s₀ s : Site) : Prop := AfterBut (fun _ => False) s₀ s

/-- What was found out at a site is still known there later. -/
structure Grows (s s' : Site) : Prop where
  ready : ∀ root pair, s.depot.cache.entry? root = some (.ready pair) →
    s'.depot.cache.entry? root = some (.ready pair)
  roots : ∀ (n : Nat) root phase, s.depot.cache.builds[n]? = some (Build.mk root phase) →
    ∃ phase', s'.depot.cache.builds[n]? = some (Build.mk root phase')
  ended : ∀ (n : Nat) root o, s.depot.cache.builds[n]? = some (Build.mk root (.ended o)) →
    s'.depot.cache.builds[n]? = some (Build.mk root (.ended o))

theorem Grows.of_cache (h : s'.depot.cache = s.depot.cache) : s.Grows s' := by
  constructor
  · intro root pair hr
    rwa [h]
  · intro n root phase hb
    exact ⟨phase, by rwa [h]⟩
  · intro n root o hb
    rwa [h]

theorem Grows.refl (s : Site) : s.Grows s := .of_cache rfl

theorem Grows.trans (h : s.Grows s') (h' : s'.Grows s'') : s.Grows s'' where
  ready root pair hr := h'.ready root pair (h.ready root pair hr)
  roots n root phase hb := by
    obtain ⟨phase', hb'⟩ := h.roots n root phase hb
    exact h'.roots n root phase' hb'
  ended n root o hb := h'.ended n root o (h.ended n root o hb)

/-- Something that was done leaves a site in order, if it was in order. -/
def Onward (s₀ s s' : Site) : Prop := After s₀ s → After s₀ s' ∧ s.Grows s'

theorem Onward.refl (s₀ s : Site) : Onward s₀ s s := fun h => ⟨h, .refl s⟩

theorem Onward.trans (h : Onward s₀ s s') (h' : Onward s₀ s' s'') : Onward s₀ s s'' := by
  intro ha
  obtain ⟨ha', hg⟩ := h ha
  obtain ⟨ha'', hg'⟩ := h' ha'
  exact ⟨ha'', hg.trans hg'⟩

/-- Nothing matters but the depot and the files. -/
theorem Onward.of_eq (hb : s'.backend = s.backend) (hc : s'.clock = s.clock)
    (hd : s'.depot = s.depot) (hf : s'.host.files = s.host.files) : Onward s₀ s s' := by
  intro h
  refine ⟨?_, .of_cache (by rw [hd])⟩
  constructor
  · rw [hb, h.backend]
  · rw [hc, h.clock]
  · rw [hd, h.locator]
  · rw [hd, h.names]
  · rw [hd, h.isOpen]
  · rw [hf]
    exact h.intact
  · rw [hd]
    exact h.ready
  · rw [hd]
    exact h.building
  · rw [hd]
    exact h.builds
  · rw [hd]
    exact h.walks

theorem Onward.withHost {host : Host} (hf : host.files = s.host.files) :
    Onward s₀ s { s with host } :=
  @Onward.of_eq s₀ s { s with host } rfl rfl rfl hf

theorem Onward.counted (metrics : Metrics) : Onward s₀ s { s with metrics } :=
  @Onward.of_eq s₀ s { s with metrics } rfl rfl rfl rfl

/-- A site comes out of itself as long as nothing was asked of it. -/
theorem after_self (ho : s.depot.isClosed = false) (hc : s.depot.cache = {})
    (hw : s.depot.walks = []) : After s s where
  backend := rfl
  clock := rfl
  locator := rfl
  names := rfl
  isOpen := ho
  intact _ := ⟨rfl, .inl rfl⟩
  ready root pair h := by rw [hc] at h; cases h
  building root n h := by rw [hc] at h; cases h
  builds n root phase h := by
    rw [hc] at h
    simp at h
  walks n w h := by rw [hw] at h; cases h

/-! ## Stages -/

/-- A stage that a build of a module root can get to. -/
def Right (s : Site) (root : Digest) : MachinePair.Stage → Prop
  | .walking w => s.OnWay w ∧ w.root = root
  | .ended result => ∃ outcome, Build.outcomeOf root result = some outcome ∧ s.Yields root outcome

theorem walking_onward {n : Nat} {w : MachinePair.Walk} (h : AfterBut (· = n) s₀ s)
    (hb : s.depot.cache.builds[n]? = some (Build.mk root .inFlight)) (hw : s₀.OnWay w)
    (hroot : w.root = root) (looks : Nat) :
    After s₀ (s.reach n root looks (.walking w)) ∧
      s.Grows (s.reach n root looks (.walking w)) := by
  have hlookup := s.lookup_reach n root looks w
  refine ⟨⟨h.backend, h.clock, h.locator, h.names, h.isOpen, h.intact, h.ready, h.building,
    ?_, ?_⟩, .of_cache rfl⟩
  · intro k r phase hk
    rcases h.builds k r phase hk with ⟨hp, hwalk⟩ | hended
    · refine .inl ⟨hp, .inr ?_⟩
      rw [hlookup]
      by_cases hkn : k = n
      · exact ⟨w, if_pos hkn⟩
      · rw [if_neg hkn]
        rcases hwalk with hbusy | hwalk
        · exact absurd hbusy hkn
        · exact hwalk
    · exact .inr hended
  · intro k w' hk
    rw [hlookup] at hk
    by_cases hkn : k = n
    · rw [if_pos hkn] at hk
      cases hk
      subst hkn hroot
      exact ⟨hw, hb⟩
    · rw [if_neg hkn] at hk
      exact h.walks k w' hk

section Finish

variable {n : Nat} {outcome : Except Error MachinePair}
  (hb : s.depot.cache.builds[n]? = some (Build.mk root .inFlight)) (looks : Nat)

include hb

theorem finishBuild_roots {k : Nat} {r : Digest} {phase : Build.Phase MachinePair}
    (hk : s.depot.cache.builds[k]? = some (Build.mk r phase)) :
    ∃ phase', (s.finishBuild n looks outcome).depot.cache.builds[k]? =
      some (Build.mk r phase') := by
  rw [builds_finishBuild hb]
  by_cases hkn : k = n
  · subst hkn
    rw [hb] at hk
    cases hk
    exact ⟨_, if_pos rfl⟩
  · exact ⟨phase, by rw [if_neg hkn, hk]⟩

theorem finishBuild_grows (h : AfterBut (· = n) s₀ s) (ho : s₀.Yields root outcome) :
    s.Grows (s.finishBuild n looks outcome) := by
  constructor
  · intro r pair hr
    rw [entry?_finishBuild hb]
    by_cases hrr : r = root
    · -- there is no other outcome than the one that is there
      have hsame := (h.ready r pair hr).unique (hrr ▸ ho)
      rw [if_pos hrr, ← hsame]
      rfl
    · rwa [if_neg hrr]
  · intro k r phase hk
    exact finishBuild_roots hb looks hk
  · intro k r o hk
    rw [builds_finishBuild hb]
    by_cases hkn : k = n
    · subst hkn
      rw [hb] at hk
      cases hk
    · rwa [if_neg hkn]

theorem finishBuild_after (h : AfterBut (· = n) s₀ s) (ho : s₀.Yields root outcome) :
    After s₀ (s.finishBuild n looks outcome) := by
  have hlookup : ∀ k, (s.finishBuild n looks outcome).depot.walks.lookup k =
      if k = n then none else s.depot.walks.lookup k := s.lookup_walks_without n
  refine ⟨h.backend, h.clock, h.locator, h.names, h.isOpen, h.intact, ?_, ?_, ?_, ?_⟩
  · intro r pair hr
    rw [entry?_finishBuild hb] at hr
    by_cases hrr : r = root
    · rw [if_pos hrr] at hr
      cases outcome with
      | ok a =>
        cases hr
        rwa [hrr]
      | error e => cases hr
    · rw [if_neg hrr] at hr
      exact h.ready r pair hr
  · intro r k hr
    rw [entry?_finishBuild hb] at hr
    by_cases hrr : r = root
    · rw [if_pos hrr] at hr
      cases outcome <;> cases hr
    · rw [if_neg hrr] at hr
      obtain ⟨phase, hk⟩ := h.building r k hr
      exact finishBuild_roots hb looks hk
  · intro k r phase hk
    rw [builds_finishBuild hb] at hk
    by_cases hkn : k = n
    · rw [if_pos hkn] at hk
      cases hk
      exact .inr ⟨outcome, rfl, ho⟩
    · rw [if_neg hkn] at hk
      rcases h.builds k r phase hk with ⟨hp, hbusy | hwalk⟩ | hended
      · exact absurd hbusy hkn
      · refine .inl ⟨hp, .inr ?_⟩
        rw [hlookup, if_neg hkn]
        exact hwalk
      · exact .inr hended
  · intro k w hk
    rw [hlookup] at hk
    by_cases hkn : k = n
    · rw [if_pos hkn] at hk
      cases hk
    · rw [if_neg hkn] at hk
      rw [builds_finishBuild hb, if_neg hkn]
      exact h.walks k w hk

end Finish

/-- Getting to a stage leaves everything in order. -/
theorem reach_onward {n : Nat} {stage : MachinePair.Stage} (h : AfterBut (· = n) s₀ s)
    (hb : s.depot.cache.builds[n]? = some (Build.mk root .inFlight))
    (hs : s₀.Right root stage) (looks : Nat) :
    After s₀ (s.reach n root looks stage) ∧ s.Grows (s.reach n root looks stage) := by
  cases stage with
  | walking w => exact walking_onward h hb hs.1 hs.2 looks
  | ended result =>
    obtain ⟨outcome, htells, ho⟩ := hs
    unfold reach
    dsimp only
    rw [htells]
    exact ⟨finishBuild_after hb looks h ho, finishBuild_grows hb looks h ho⟩

/-- A build that ended has its outcome. -/
theorem reach_ended {n : Nat} {result : Result MachinePair}
    (hb : s.depot.cache.builds[n]? = some (Build.mk root .inFlight))
    (hs : s₀.Right root (.ended result)) (looks : Nat) :
    ∃ outcome, (s.reach n root looks (.ended result)).depot.cache.builds[n]? =
      some (Build.mk root (.ended outcome)) := by
  obtain ⟨outcome, htells, -⟩ := hs
  refine ⟨outcome, ?_⟩
  unfold reach
  dsimp only
  rw [htells]
  exact (Cache.getElem?_finish hb outcome n).trans (if_pos rfl)

/-! ## Builds -/

/-- The engine of programs, no limit on builds, and plain names. -/
structure Calm (s : Site) : Prop where
  reference : s.backend.IsReference
  named : s.Named
  unlimited : s.depot.files.buildTimeoutMs = 0

theorem AfterBut.buildDeadline_eq {busy : Nat → Prop} (h : AfterBut busy s₀ s)
    (hc : s₀.Calm) : s.buildDeadline = .never := by
  unfold buildDeadline buildLimit
  rw [h.isOpen, h.names, hc.unlimited]
  rfl

theorem After.withHost (h : After s₀ s) {host : Host}
    (hi : ∀ root, s₀.Intact root host.files) (n : Nat) :
    AfterBut (· = n) s₀ { s with host } where
  backend := h.backend
  clock := h.clock
  locator := h.locator
  names := h.names
  isOpen := h.isOpen
  intact := hi
  ready := h.ready
  building := h.building
  builds := by
    intro k root phase hk
    rcases h.builds k root phase hk with ⟨hp, hbusy | hwalk⟩ | hended
    · exact absurd hbusy id
    · exact .inl ⟨hp, .inr hwalk⟩
    · exact .inr hended
  walks := h.walks

/-- A walk that goes on gets to a stage of its build, and leaves all files intact. -/
theorem OnWay.goOn (hc : s₀.Calm) {fs : Files} {w : MachinePair.Walk} (hw : s₀.OnWay w)
    (horizon : Nat) (pause : Option Nat) {host : Host} (hf : host.files = fs)
    (hi : ∀ root, s₀.Intact root fs) :
    s₀.Right w.root (w.goOn horizon pause host).1 ∧
      ∀ root, s₀.Intact root (w.goOn horizon pause host).2.2.files := by
  subst hf
  obtain ⟨p, m, d, hwalks, ha, hd, hw⟩ := hw
  have hmachine : w.hostIo = .plain m false none := by rw [hw]
  have hgoes := w.goOn_plain hmachine horizon pause host
  subst hw
  rcases hgoes with
    ⟨m', d', ha', hstage, hlimit, hhost⟩ | ⟨m', ha', hwaits, hstage, hhost⟩ | ⟨hlimit, -, -⟩
  · rw [hstage, hhost]
    exact ⟨⟨⟨p, m', d', hwalks, ha.trans ha', hlimit.trans hd, rfl⟩, rfl⟩, hi⟩
  · rw [hstage]
    refine ⟨⟨_, rfl, .walked hwalks (ha.trans ha') hwaits⟩, ?_⟩
    rcases hhost with ⟨e, -, hhost⟩ | ⟨gs, hsave, hhost⟩
    · rw [hhost]
      exact hi
    · rw [hhost]
      exact Intact.write hc.named hi hwalks (ha.trans ha') hwaits
        (MachinePair.files_of_save hsave)
  · exact absurd hd hlimit

theorem goOn_onward (hc : s₀.Calm) (pause : Option Nat) (n : Nat) :
    Onward s₀ s (s.goOn pause n).2 := by
  intro h
  unfold goOn
  cases hl : s.depot.walks.lookup n with
  | none => exact ⟨h, .refl s⟩
  | some w =>
    obtain ⟨hway, hb⟩ := h.walks n w hl
    obtain ⟨hright, hi⟩ := hway.goOn hc s.clock.horizon pause rfl h.intact
    dsimp only
    cases hg : w.goOn s.clock.horizon pause s.host with
    | mk stage rest =>
      rw [hg] at hright hi
      obtain ⟨hafter, hgrows⟩ := reach_onward (h.withHost hi n) hb hright
        (w.deadline.spent + rest.1)
      have hsame : s.Grows { s with host := (stage, rest).2.2 } := .of_cache rfl
      exact ⟨hafter, hsame.trans hgrows⟩

/-- The build of a module root begins. -/
theorem startBuild_onward (hc : s₀.Calm) {n : Nat} (h : AfterBut (· = n) s₀ s)
    (hb : s.depot.cache.builds[n]? = some (Build.mk root .inFlight)) :
    After s₀ (s.startBuild n root) ∧ s.Grows (s.startBuild n root) := by
  have hstart : MachinePair.start s.backend s.depot.files (s.depot.locator.machinePath root) root
      s.buildDeadline s.host = (s₀.beginsFrom root s.host.files, s.host) := by
    rw [h.buildDeadline_eq hc, h.backend, h.names, h.locator]
    exact MachinePair.start_reference hc.reference
  have hright : s₀.Right root (s₀.beginsFrom root s.host.files) := by
    rcases (h.intact root).begins with hsame | ⟨pair, hpair, hyields⟩
    · rw [hsame]
      cases hbegins : s₀.begins root with
      | ended result =>
        obtain ⟨outcome, htells⟩ := begins_outcome hbegins
        exact ⟨outcome, htells, .atOnce hbegins htells⟩
      | walking w =>
        obtain ⟨p, rfl, rfl⟩ := begins_walking hbegins
        exact ⟨⟨p, _, .never, hbegins, .here _, rfl, rfl⟩, rfl⟩
    · rw [hpair]
      exact ⟨_, rfl, hyields⟩
  unfold startBuild
  rw [hstart]
  exact reach_onward h hb hright 0

end Rerun.Site
