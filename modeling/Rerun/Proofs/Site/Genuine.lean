import Rerun.Proofs.Site.Lasting
import Rerun.Proofs.Site.Turn

/-!
# Sites with genuine machines

Whatever limits there are, whatever is closed and whatever lies in the directories: with the
reference engine the machine pairs of a site are two machines of a program of their module root,
which nobody runs themselves, and a build that fails names its module root. This outlasts all work
(`lasting_genuine`), and so it holds of whatever someone is given who asks for machines
(`pair_genuine`, `pairs_genuine`).
-/

namespace Rerun

/-! ## Builds -/

/-- A build of a module root was started under a number. -/
def Cache.IsBuildOf {α : Type} (c : Cache α) (n : Nat) (root : Digest) : Prop :=
  ∃ phase, c.builds[n]? = some (Build.mk root phase)

theorem Cache.IsBuildOf.grows {α : Type} {c c' : Cache α} {n : Nat} {root : Digest}
    (h : c.IsBuildOf n root) (hg : c.Grows c') : c'.IsBuildOf n root := by
  obtain ⟨phase, hb⟩ := h
  obtain ⟨phase', hb', -⟩ := hg.builds n root phase hb
  exact ⟨phase', hb'⟩

namespace MachinePair

/-- What a build of a module root comes to that is as it should be. -/
inductive Genuine (root : Digest) : Except Error MachinePair → Prop
  | pair {p : Program} (m : Machine) (h : p.root = root) : Genuine root (.ok (frozen p m))
  | failed (reason : String) : Genuine root (.error (.buildFailed root reason))

/-- A walk with the machines of a program of its module root. -/
def Walk.IsGenuine (w : Walk) : Prop :=
  ∃ p m, p.root = w.root ∧ w.zeroStep = .plain (.ofProgram p) false none ∧
    w.hostIo = .plain m false none

/-- A stage on the way to a genuine outcome. -/
inductive Stage.IsGenuine (root : Digest) : Stage → Prop
  | walking {w : Walk} (h : w.IsGenuine) (hr : w.root = root) : Stage.IsGenuine root (.walking w)
  | ended {r : Result MachinePair} (h : ∀ o, Build.outcomeOf root r = some o → Genuine root o) :
    Stage.IsGenuine root (.ended r)

theorem Stage.IsGenuine.failed (root : Digest) (reason : String) :
    Stage.IsGenuine root (.ended (fail (.buildFailed root reason))) := by
  refine .ended fun o ho => ?_
  cases ho
  exact .failed reason

theorem Stage.IsGenuine.done {root : Digest} {p : Program} (m : Machine) (h : p.root = root) :
    Stage.IsGenuine root (.ended (.ok (frozen p m))) := by
  refine .ended fun o ho => ?_
  cases ho
  exact .pair m h

theorem start_genuine {backend : Backend} (hb : backend.IsReference) (files : Config.MachineFiles)
    (directory : String) (root : Digest) (d : Deadline) (host : Host) :
    (start backend files directory root d host).1.IsGenuine root := by
  rw [start_reference hb]
  dsimp only
  cases hbegin : beginning backend.name files directory root d host.files with
  | walking w =>
    obtain ⟨p, -, hp, rfl⟩ := beginning_walking hbegin
    exact .walking ⟨p, .ofProgram p, rfl, rfl, rfl⟩ hp
  | ended r =>
    cases r with
    | ok pair =>
      obtain ⟨p, m, -, hp, -, rfl⟩ := beginning_ended hbegin
      exact .done m hp
    | error f =>
      obtain ⟨reason, rfl⟩ := beginning_failed hbegin
      exact .failed root reason

theorem Walk.IsGenuine.goOn {w : Walk} (h : w.IsGenuine) (horizon : Nat) (pause : Option Nat)
    (host : Host) : (w.goOn horizon pause host).1.IsGenuine w.root := by
  obtain ⟨p, m, hp, hzero, hio⟩ := h
  obtain ⟨m', d, -, hstage, -⟩ | ⟨m', -, -, hstage, -⟩ | ⟨-, ⟨reason, hstage⟩, -⟩ :=
    Walk.goOn_plain hio horizon pause host
  · rw [hstage]
    exact .walking ⟨p, m', hp, hzero, rfl⟩ rfl
  · rw [hstage, hzero]
    exact .done m' hp
  · rw [hstage]
    exact .failed w.root reason

end MachinePair

/-! ## Sites -/

namespace Site

open MachinePair (Genuine)

variable {s s' : Site} {root : Digest} {n : Nat} {o : Except Error MachinePair}

/-- Whether someone who asks for the machines of a module root can have been given an outcome. Pairs
are there to stay. -/
structure Gives (s : Site) (root : Digest) (o : Except Error MachinePair) : Prop where
  genuine : Genuine root o
  ready : ∀ pair, o = .ok pair → s.depot.cache.entry? root = some (.ready pair)

/-- What was found out at a site is still known at another one. -/
def Recalls (s s' : Site) : Prop := s.depot.cache.Grows s'.depot.cache

theorem Recalls.refl (s : Site) : s.Recalls s := Cache.Grows.refl _

theorem Recalls.trans {s'' : Site} (h : s.Recalls s') (h' : s'.Recalls s'') : s.Recalls s'' :=
  Cache.Grows.trans h h'

theorem Gives.failed (s : Site) (root : Digest) (reason : String) :
    s.Gives root (.error (.buildFailed root reason)) where
  genuine := .failed reason
  ready pair h := by cases h

theorem Gives.recalled (h : s.Gives root o) (hs : s.Recalls s') : s'.Gives root o :=
  ⟨h.genuine, fun pair hp => (hs.ready root pair (h.ready pair hp)).1⟩

/-- A site of the reference engine whose machines are genuine. -/
structure IsGenuine (s : Site) : Prop where
  reference : s.backend.IsReference
  sound : s.depot.cache.Sound
  walks : ∀ x ∈ s.depot.walks, x.2.IsGenuine ∧ s.depot.cache.IsBuildOf x.1 x.2.root
  ready : ∀ root pair, s.depot.cache.entry? root = some (.ready pair) → Genuine root (.ok pair)
  ended : ∀ (n : Nat) root o, s.depot.cache.builds[n]? = some (Build.mk root (.ended o)) →
    s.Gives root o

theorem genuine_ofFiles {backend : Backend} (hb : backend.IsReference) (clock : Clock)
    (locator : Locator) (names : Config.MachineFiles) (files : Files) :
    (ofFiles backend clock locator names files).IsGenuine where
  reference := hb
  sound := .new
  walks _ hx := absurd hx List.not_mem_nil
  ready _ _ h := nomatch h
  ended _ _ _ h := by
    have hnone : ∀ k : Nat, (ofFiles backend clock locator names files).depot.cache.builds[k]? =
        none := fun _ => List.getElem?_nil
    rw [hnone] at h
    cases h

/-! ## Ends of builds -/

/-- A build that was in flight ends. -/
theorem finish_inFlight_genuine (h : s.IsGenuine) (hb : s.depot.cache.IsInFlight n root)
    (looks : Nat) (ho : Genuine root o) :
    (s.finishBuild n looks o).IsGenuine ∧ s.Recalls (s.finishBuild n looks o) := by
  have hentry : ∀ r, (s.finishBuild n looks o).depot.cache.entry? r =
      if r = root then Cache.known o else s.depot.cache.entry? r := entry?_finishBuild hb looks
  have hbuild : ∀ k : Nat, (s.finishBuild n looks o).depot.cache.builds[k]? =
      if k = n then some (Build.mk root (.ended o)) else s.depot.cache.builds[k]? :=
    builds_finishBuild hb looks
  have hmove : s.depot.cache.Move (s.finishBuild n looks o).depot.cache := by
    show s.depot.cache.Move (s.depot.cache.finish n o)
    rw [Cache.finish_inFlight hb]
    exact .settled hb rfl
  have hrecalls : s.Recalls (s.finishBuild n looks o) := hmove.grows h.sound
  refine ⟨⟨h.reference, h.sound.move hmove, fun x hx => ?_, fun r pair hr => ?_,
    fun k r o' hk => ?_⟩, hrecalls⟩
  · obtain ⟨hw, hxb⟩ := h.walks x (List.mem_filter.1 hx).1
    exact ⟨hw, hxb.grows hrecalls⟩
  · rw [hentry] at hr
    split at hr
    · rename_i hroot
      subst hroot
      cases o with
      | ok pair' =>
        cases hr
        exact ho
      | error e => cases hr
    · exact h.ready r pair hr
  · rw [hbuild] at hk
    split at hk
    · cases hk
      refine ⟨ho, ?_⟩
      rintro pair rfl
      rw [hentry, if_pos rfl]
      rfl
    · exact (h.ended k r o' hk).recalled hrecalls

/-- A build that is over does not end again. -/
theorem finish_over_genuine (h : s.IsGenuine) (hover : ∀ r, ¬ s.depot.cache.IsInFlight n r)
    (looks : Nat) (o : Except Error MachinePair) :
    (s.finishBuild n looks o).IsGenuine ∧ s.Recalls (s.finishBuild n looks o) := by
  have hcache : (s.finishBuild n looks o).depot.cache = s.depot.cache :=
    Cache.finish_over hover o
  have hrecalls : s.Recalls (s.finishBuild n looks o) := by
    unfold Recalls
    rw [hcache]
    exact .refl _
  refine ⟨⟨h.reference, ?_, fun x hx => ?_, ?_, fun k r o' hk => ?_⟩, hrecalls⟩
  · rw [hcache]
    exact h.sound
  · obtain ⟨hw, hxb⟩ := h.walks x (List.mem_filter.1 hx).1
    exact ⟨hw, hxb.grows hrecalls⟩
  · rw [hcache]
    exact h.ready
  · rw [hcache] at hk
    exact (h.ended k r o' hk).recalled hrecalls

/-- Whether a build is over or not, it may be told how it ended. -/
theorem finish_genuine (h : s.IsGenuine) (hb : s.depot.cache.IsBuildOf n root) (looks : Nat)
    (ho : Genuine root o) :
    (s.finishBuild n looks o).IsGenuine ∧ s.Recalls (s.finishBuild n looks o) := by
  obtain ⟨phase, hb⟩ := hb
  by_cases hphase : phase = .inFlight
  · rw [hphase] at hb
    exact finish_inFlight_genuine h hb looks ho
  · refine finish_over_genuine h (fun r hr => ?_) looks o
    rw [Cache.IsInFlight, hb] at hr
    cases hr
    exact hphase rfl

theorem reach_genuine (h : s.IsGenuine) (hb : s.depot.cache.IsBuildOf n root) (looks : Nat)
    {stage : MachinePair.Stage} (hs : stage.IsGenuine root) :
    (s.reach n root looks stage).IsGenuine ∧ s.Recalls (s.reach n root looks stage) := by
  cases hs with
  | walking hw hr =>
    subst hr
    refine ⟨⟨h.reference, h.sound, fun x hx => ?_, h.ready, fun k r o hk => ?_⟩, .refl s⟩
    · obtain hx | hx := List.mem_append.1 hx
      · exact h.walks x (List.mem_filter.1 hx).1
      · obtain rfl := List.mem_singleton.1 hx
        exact ⟨hw, hb⟩
    · exact ⟨(h.ended k r o hk).genuine, (h.ended k r o hk).ready⟩
  | ended ho =>
    unfold reach
    dsimp only
    split
    · rename_i o hr
      exact finish_genuine h hb looks (ho o hr)
    · exact ⟨h, .refl s⟩

/-- Neither the host nor the counters make a difference to the machines. -/
theorem withHost_genuine (h : s.IsGenuine) (host : Host) (metrics : Metrics) :
    IsGenuine { s with host, metrics } :=
  ⟨h.reference, h.sound, h.walks, h.ready,
    fun n root o hb => ⟨(h.ended n root o hb).genuine, (h.ended n root o hb).ready⟩⟩

/-! ## Work -/

theorem goOn_genuine (h : s.IsGenuine) (pause : Option Nat) (n : Nat) :
    (s.goOn pause n).2.IsGenuine ∧ s.Recalls (s.goOn pause n).2 := by
  unfold goOn
  split
  · exact ⟨h, .refl s⟩
  · rename_i w hw
    obtain ⟨hwalk, hb⟩ := h.walks (n, w) (Lookup.mem_of_eq_some hw)
    have hstage := hwalk.goOn s.clock.horizon pause s.host
    have hhost := withHost_genuine h (w.goOn s.clock.horizon pause s.host).2.2 s.metrics
    exact reach_genuine hhost hb _ hstage

theorem startBuild_genuine (h : s.IsGenuine) (hb : s.depot.cache.IsBuildOf n root) :
    (s.startBuild n root).IsGenuine ∧ s.Recalls (s.startBuild n root) := by
  have hstage := MachinePair.start_genuine h.reference s.depot.files
    (s.depot.locator.machinePath root) root s.buildDeadline s.host
  unfold startBuild
  generalize MachinePair.start s.backend s.depot.files (s.depot.locator.machinePath root) root
    s.buildDeadline s.host = begun at hstage ⊢
  obtain ⟨stage, host⟩ := begun
  exact reach_genuine (withHost_genuine h host s.metrics) hb 0 hstage

/-- A request that is only counted changes nothing, and one that starts a build adds it. -/
theorem requested_genuine (h : s.IsGenuine) (root : Digest) :
    let cache := (s.depot.cache.request root).2
    let asked : Site := { s with depot := { s.depot with cache } }
    asked.IsGenuine ∧ s.Recalls asked := by
  intro cache asked
  have hmove : s.depot.cache.Move cache := s.depot.cache.request_move root
  have hrecalls : s.Recalls asked := hmove.grows h.sound
  have hold : (∀ r pair, cache.entry? r = some (.ready pair) →
        s.depot.cache.entry? r = some (.ready pair)) ∧
      ∀ (k : Nat) r o, cache.builds[k]? = some (Build.mk r (.ended o)) →
        s.depot.cache.builds[k]? = some (Build.mk r (.ended o)) := by
    cases he : s.depot.cache.entry? root with
    | none =>
      have hstarted : cache = s.depot.cache.started root :=
        congrArg Prod.snd (Cache.request_new he)
      rw [hstarted]
      constructor
      · intro r pair hr
        rw [Cache.entry?_started] at hr
        split at hr
        · cases hr
        · exact hr
      · intro k r o hk
        rw [Cache.getElem?_started] at hk
        split at hk
        · cases hk
        · exact hk
    | some e =>
      obtain ⟨-, hentries, hbuilds⟩ := Cache.request_known he
      unfold Cache.entry?
      rw [show cache.entries = _ from hentries, show cache.builds = _ from hbuilds]
      exact ⟨fun _ _ hr => hr, fun _ _ _ hk => hk⟩
  refine ⟨⟨h.reference, h.sound.move hmove, fun x hx => ?_, fun r pair hr => ?_,
    fun k r o hk => ?_⟩, hrecalls⟩
  · obtain ⟨hw, hb⟩ := h.walks x hx
    exact ⟨hw, hb.grows hrecalls⟩
  · exact h.ready r pair (hold.1 r pair hr)
  · exact (h.ended k r o (hold.2 k r o hk)).recalled hrecalls

/-- Whether a ticket is one for a module root. -/
def IsTicket (s : Site) (root : Digest) : Cache.Ticket MachinePair → Prop
  | .value pair => s.Gives root (.ok pair)
  | .build n => s.depot.cache.IsBuildOf n root

theorem IsTicket.recalled {ticket : Cache.Ticket MachinePair} (h : s.IsTicket root ticket)
    (hs : s.Recalls s') : s'.IsTicket root ticket := by
  cases ticket with
  | value pair => exact Gives.recalled h hs
  | build n => exact Cache.IsBuildOf.grows h hs

/-- A request leaves all machines genuine, and gives a ticket for its module root. -/
theorem request_genuine (h : s.IsGenuine) (root : Digest) :
    (s.request root).2.IsGenuine ∧ s.Recalls (s.request root).2 ∧
      (s.request root).2.IsTicket root (s.request root).1 := by
  obtain ⟨hasked, hrecalls⟩ := requested_genuine h root
  cases he : s.depot.cache.entry? root with
  | none =>
    have hnew := Cache.request_new he
    rw [hnew] at hasked hrecalls
    have hb : (s.depot.cache.started root).IsBuildOf s.depot.cache.builds.length root :=
      ⟨.inFlight, (Cache.getElem?_started _ root _).trans (if_pos rfl)⟩
    obtain ⟨hdone, hmore⟩ := startBuild_genuine hasked hb
    rw [request_started he]
    have hticket := hb.grows hmore
    exact ⟨hdone, hrecalls.trans hmore, hticket⟩
  | some e =>
    have hrequest : s.request root = ((s.depot.cache.request root).1,
        { s with depot := { s.depot with cache := (s.depot.cache.request root).2 } }) := by
      unfold request
      rw [he]
      rfl
    obtain ⟨hticket, -, -⟩ := Cache.request_known he
    rw [hrequest]
    refine ⟨hasked, hrecalls, ?_⟩
    dsimp only
    rw [hticket]
    cases e with
    | ready pair =>
      have hgives : s.Gives root (.ok pair) := ⟨h.ready root pair he, by rintro _ ⟨⟩; exact he⟩
      exact hgives.recalled hrecalls
    | building n =>
      have hb : s.depot.cache.IsBuildOf n root := ⟨_, (h.sound.building n root).1 he⟩
      exact hb.grows hrecalls

theorem abort_genuine (h : s.IsGenuine) {walks : List (Nat × MachinePair.Walk)}
    (hb : ∀ x ∈ walks, s.depot.cache.IsBuildOf x.1 x.2.root) :
    (s.abort walks).IsGenuine ∧ s.Recalls (s.abort walks) := by
  induction walks generalizing s with
  | nil => exact ⟨h, .refl s⟩
  | cons x walks ih =>
    obtain ⟨hnext, hrecalls⟩ := finish_genuine h (hb x List.mem_cons_self) x.2.deadline.spent
      (.failed (MachinePair.hostIoReason .cancelled))
    obtain ⟨hdone, hmore⟩ := ih hnext fun y hy =>
      (hb y (List.mem_cons_of_mem _ hy)).grows hrecalls
    exact ⟨hdone, hrecalls.trans hmore⟩

theorem closeDepot_genuine (h : s.IsGenuine) :
    s.closeDepot.IsGenuine ∧ s.Recalls s.closeDepot := by
  have hclosed : IsGenuine { s with depot := { s.depot with isClosed := true } } :=
    ⟨h.reference, h.sound, h.walks, h.ready,
      fun n root o hb => ⟨(h.ended n root o hb).genuine, (h.ended n root o hb).ready⟩⟩
  exact abort_genuine hclosed fun x hx => (h.walks x hx).2

/-- Genuine machines outlast all work, and so does what was found out. -/
theorem lasting_genuine (s₀ : Site) : Lasting fun s => s.IsGenuine ∧ s₀.Recalls s where
  counted {s} metrics h := ⟨withHost_genuine h.1 s.host metrics, h.2⟩
  withHost {s} host _ h := ⟨withHost_genuine h.1 host s.metrics, h.2⟩
  request root h := by
    obtain ⟨hdone, hrecalls, -⟩ := request_genuine h.1 root
    exact ⟨hdone, h.2.trans hrecalls⟩
  goOn pause n h := by
    obtain ⟨hdone, hrecalls⟩ := goOn_genuine h.1 pause n
    exact ⟨hdone, h.2.trans hrecalls⟩

/-! ## Answers -/

/-- The answer to a ticket is genuine. -/
theorem IsTicket.answer (h : s.IsGenuine) {ticket : Cache.Ticket MachinePair}
    (ht : s.IsTicket root ticket) (ho : s.depot.cache.answer? ticket = some o) :
    s.Gives root o := by
  cases ticket with
  | value pair =>
    cases ho
    exact ht
  | build n =>
    obtain ⟨phase, hb⟩ := ht
    rw [Cache.answer?_build hb] at ho
    cases phase with
    | inFlight => cases ho
    | ended o' =>
      cases ho
      exact h.ended n root o hb
    | dropped =>
      cases ho
      exact .failed s root _

/-- Whoever asks for the machines of a module root is given genuine ones, if any. -/
theorem pair_genuine (h : s.IsGenuine) (patience : Option Nat) (root : Digest) :
    (s.pair patience root).2.2.IsGenuine ∧ s.Recalls (s.pair patience root).2.2 ∧
      ∀ o, (s.pair patience root).1 = some o → (s.pair patience root).2.2.Gives root o := by
  obtain ⟨hasked, hrecalls, hticket⟩ := request_genuine h root
  unfold pair
  generalize s.request root = asked at hasked hrecalls hticket ⊢
  obtain ⟨ticket, s₁⟩ := asked
  obtain ⟨hdone, hmore⟩ :=
    (lasting_genuine s₁).runs.await patience ticket ⟨hasked, .refl s₁⟩
  dsimp only
  generalize s₁.await patience ticket = waited at hdone hmore ⊢
  obtain ⟨looks, s₂⟩ := waited
  exact ⟨hdone, hrecalls.trans hmore, fun o ho => (hticket.recalled hmore).answer hdone ho⟩

theorem requests_genuine (h : s.IsGenuine) (root : Digest) (count : Nat) :
    (s.requests root count).2.IsGenuine ∧ s.Recalls (s.requests root count).2 ∧
      ∀ ticket ∈ (s.requests root count).1, (s.requests root count).2.IsTicket root ticket := by
  induction count generalizing s with
  | zero => exact ⟨h, .refl s, fun _ hmem => absurd hmem List.not_mem_nil⟩
  | succ count ih =>
    obtain ⟨hasked, hrecalls, hticket⟩ := request_genuine h root
    obtain ⟨hdone, hmore, htickets⟩ := ih hasked
    have hsplit : s.requests root (count + 1) =
        ((s.request root).1 :: ((s.request root).2.requests root count).1,
          ((s.request root).2.requests root count).2) := rfl
    rw [hsplit]
    exact ⟨hdone, hrecalls.trans hmore,
      List.forall_mem_cons.2 ⟨hticket.recalled hmore, htickets⟩⟩

/-- So is everyone of several who ask for them at the same time. -/
theorem pairs_genuine (h : s.IsGenuine) (patience : Option Nat) (root : Digest) (count : Nat) :
    (s.pairs patience root count).2.2.IsGenuine ∧
      s.Recalls (s.pairs patience root count).2.2 ∧
      ∀ o, some o ∈ (s.pairs patience root count).1 →
        (s.pairs patience root count).2.2.Gives root o := by
  obtain ⟨hasked, hrecalls, htickets⟩ := requests_genuine h root count
  obtain ⟨hdone, hmore⟩ := (lasting_genuine (s.requests root count).2).runs.awaitAll patience
    (s.requests root count).1 ⟨hasked, .refl _⟩
  refine ⟨hdone, hrecalls.trans hmore, fun o ho => ?_⟩
  obtain ⟨ticket, hmem, hanswer⟩ := List.mem_map.1 ho
  exact ((htickets ticket hmem).recalled hmore).answer hdone hanswer

end Site

end Rerun
