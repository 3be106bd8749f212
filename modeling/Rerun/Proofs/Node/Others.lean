import Rerun.Proofs.Handle.Others
import Rerun.Proofs.Handle.Outcome
import Rerun.Proofs.Node.Lasting
import Rerun.Proofs.Site.Genuine

/-!
# What a node leaves to others

Builds have no resolvers, runs leave the entries of the registry as they were
(`outlastsRuns_leavesOthers`), and a session looks after its own two handles. So whoever else has
handles at the host of a node finds under their tokens what was there before, whatever is asked of
the node (`perform_heeds`).
-/

namespace Rerun

open Handle (LeavesOthers)

/-! ## Builds -/

namespace MachinePair

theorem load_host {backend : Backend} {host host' : Host} {image : String} {root : Digest}
    {zeroStep hostIo : Handle} (h : load backend host image root = .ok (zeroStep, hostIo, host')) :
    host' = host := by
  unfold load at h
  dsimp only at h
  split at h
  · cases h
  · split at h
    · cases h
    · split at h
      · cases h
      · split at h
        · cases h
        · rename_i i _ _ _ _ hc
          cases h
          obtain ⟨j, -, ⟨-, -, rfl⟩ | ⟨t, ht, -, -⟩⟩ := Handle.copy_eq_ok hc
          · rfl
          · cases ht

/-- The beginning of a build leaves the host alone. -/
theorem start_host (backend : Backend) (files : Config.MachineFiles) (directory : String)
    (root : Digest) (d : Deadline) (host : Host) :
    (start backend files directory root d host).2 = host := by
  unfold start
  split
  · rfl
  · split
    · rfl
    · rename_i hl
      obtain rfl := load_host hl
      dsimp only
      split
      · split <;> rfl
      · rfl

/-- A build goes on without any resolver. -/
theorem Walk.goOn_registry (horizon : Nat) (pause : Option Nat) (host : Host) (w : Walk) :
    (w.goOn horizon pause host).2.2.registry = host.registry := by
  have hspared := Handle.stepUntilHostIo_spared host horizon (w.deadline.within pause) w.hostIo
  have harrive : ∀ (host' : Host) (h : Handle),
      (w.arrive host' h).2.registry = host'.registry := by
    intro host' h
    unfold arrive
    dsimp only
    split
    · rename_i hs
      exact Handle.save_registry hs
    · rfl
  unfold goOn
  dsimp only
  generalize w.hostIo.stepUntilHostIo host horizon (w.deadline.within pause) = r at hspared ⊢
  obtain ⟨r, host'⟩ := r
  have hregistry : host'.registry = host.registry := hspared.registry
  dsimp only
  split
  · exact (harrive host' r.machine).trans hregistry
  · exact hregistry
  · split <;> exact hregistry
  · exact hregistry

end MachinePair

/-- A copy with an input asks under the token of its own family. -/
theorem Handle.loaded_sound (m : Machine) (x : Input) (token : Nat) :
    (plain (m.loaded x token) false (some token)).Sound where
  family_of_gone := nofun
  context_eq := by
    rintro i ⟨⟩
    rfl

namespace Site

theorem reach_host (s : Site) (n : Nat) (root : Digest) (looks : Nat) (stage : MachinePair.Stage) :
    (s.reach n root looks stage).host = s.host := by
  unfold reach
  split
  · rfl
  · split <;> rfl

theorem request_registry (s : Site) (root : Digest) :
    (s.request root).2.host.registry = s.host.registry := by
  unfold request
  dsimp only
  split
  · unfold startBuild
    dsimp only
    rw [reach_host, MachinePair.start_host]
  · rfl

theorem goOn_registry (s : Site) (pause : Option Nat) (n : Nat) :
    (s.goOn pause n).2.host.registry = s.host.registry := by
  unfold goOn
  split
  · rfl
  · rename_i w hw
    dsimp only
    rw [reach_host]
    exact w.goOn_registry s.clock.horizon pause s.host

/-! ## Runs -/

/-- Runs leave the handles of all others alone. -/
theorem outlastsRuns_leavesOthers (s₀ : Site) :
    OutlastsRuns fun s => ∀ hs, LeavesOthers s₀.host.registry hs s.host.registry hs where
  counted _ h := h
  ran x d way source h hs := (h hs).trans (.of_entries (fun ho =>
    Handle.runCopy_entries (way.advance_spared _) ho x d source) hs)
  request {s} root h hs := (s.request_registry root).symm ▸ h hs
  goOn {s} pause n h hs := (s.goOn_registry pause n).symm ▸ h hs

end Site

namespace Node

variable {n n' : Node}

/-! ## Sessions -/

/-- The handles of all sessions. -/
def handles (n : Node) : List Handle := n.sessions.flatMap Session.handles

/-- A node that left the handles of all others alone. -/
def Heeds (n n' : Node) : Prop :=
  LeavesOthers n.site.host.registry n.handles n'.site.host.registry n'.handles

theorem Heeds.of_site {site : Site}
    (h : ∀ hs, LeavesOthers n.site.host.registry hs site.host.registry hs) :
    n.Heeds { n with site } := h n.handles

theorem settle_host {α : Type} (s : Site) (r : Result α) : (s.settle r).2.host = s.host := by
  obtain ⟨metrics, hsame⟩ := s.settle_eq r
  rw [hsame]

/-- One session among the others. -/
theorem handles_set {i : Nat} {s : Session} (hi : n.sessions[i]? = some s) :
    ∃ rest, n.handles.Perm (s.handles ++ rest) ∧ ∀ s' : Session,
      ((n.sessions.set i s').flatMap Session.handles).Perm (s'.handles ++ rest) := by
  obtain ⟨hlt, rfl⟩ := List.getElem?_eq_some_iff.1 hi
  refine ⟨(n.sessions.eraseIdx i).flatMap Session.handles, ?_, fun s' => ?_⟩
  · exact (List.getElem_cons_eraseIdx_perm hlt).symm.flatMap_right Session.handles
  · exact (List.set_perm_cons_eraseIdx hlt s').flatMap_right Session.handles

theorem ask_heeds {i : Nat} {s : Session} (hi : n.sessions[i]? = some s)
    (question : Session.Ask) : n.Heeds (n.ask i s question).2 := by
  unfold ask
  split
  · exact .refl _ _
  · obtain ⟨rest, hbefore, hafter⟩ := handles_set hi
    have hjob := Session.job_moves n.site.host n.site.clock.horizon .never s question
    dsimp only
    unfold Heeds Node.settle
    dsimp only
    rw [settle_host]
    exact (hjob.leavesOthers.frame rest).within hbefore (hafter _)

theorem closeSession_heeds {i : Nat} {s : Session} (hi : n.sessions[i]? = some s) :
    n.Heeds (n.closeSession i s) := by
  obtain ⟨rest, hbefore, hafter⟩ := handles_set hi
  exact ((Session.close_moves n.site.host s).leavesOthers.frame rest).within hbefore (hafter _)

/-- A session over a new copy with an input comes with two handles of its own family. -/
theorem opened_leavesOthers (host : Host) (m : Machine) (x : Input) (root : Digest)
    (stepChunk : UInt64) :
    let t := host.registry.lastToken + 1
    let opened := Session.ofPrepared (Handle.supplied host x) root
      (.plain (m.loaded x t) false (some t)) stepChunk
    LeavesOthers host.registry [] opened.2.registry (Session.handlesOf opened.1) := by
  intro t opened
  have hregistered : LeavesOthers host.registry [] (Handle.supplied host x).registry
      [.plain (m.loaded x t) false (some t)] :=
    .register _ x.resolver rfl (Handle.loaded_sound m x t)
  exact hregistered.trans (Session.ofPrepared_moves _ root _ stepChunk).leavesOthers

/-- The handles of a new session come behind those of all others. -/
theorem Heeds.add {host : Host} {s : Session}
    (h : LeavesOthers n.site.host.registry [] host.registry s.handles) :
    n.Heeds { n with site := { n.site with host }, sessions := n.sessions ++ [s] } := by
  have hlast : handles { n with site := { n.site with host }, sessions := n.sessions ++ [s] } =
      n.handles ++ s.handles := by
    simp [handles]
  refine (h.frame n.handles).within (.refl _) ?_
  rw [hlast]
  exact List.perm_append_comm

theorem openSession_heeds (hg : n.site.IsGenuine) (root : Digest) (x : Input) :
    n.Heeds (n.openSession root x).2 := by
  have hfound : n.Heeds (n.machines root).2 := .of_site
    ((Site.outlastsRuns_leavesOthers n.site).pair none root fun hs => .refl _ hs)
  have hgives := (Site.pair_genuine hg none root).2.2
  have hanswer : ∀ pair, (n.machines root).1 = some (.ok pair) →
      MachinePair.Genuine root (.ok pair) := fun pair h => (hgives _ h).genuine
  unfold openSession
  split
  · exact .refl _ _
  · generalize n.machines root = found at hfound hanswer ⊢
    obtain ⟨answer, n₁⟩ := found
    rcases answer with _ | (e | pair)
    · exact hfound
    · exact hfound
    · dsimp only
      split
      · exact hfound
      · cases hanswer pair rfl with
        | @pair p m hp =>
          have hopened := opened_leavesOthers n₁.site.host (.ofProgram p) x root
            n₁.config.interpreter.stepChunk
          have hprepared : Session.prepare n₁.site.host (MachinePair.frozen p m).zeroStep x = _ :=
            Session.prepare_plain n₁.site.host (.ofProgram p) true x
          have hsettled : ∀ h : Handle, n₁.settle (Handle.supplied n₁.site.host x) (.ok h) =
              (.ok h, { n₁ with site :=
                { n₁.site with host := Handle.supplied n₁.site.host x } }) := fun _ => rfl
          refine hfound.trans ?_
          rw [hprepared]
          dsimp only at hopened ⊢
          rw [hsettled]
          dsimp only
          generalize Session.ofPrepared _ root _ _ = opened at hopened ⊢
          obtain ⟨session, host⟩ := opened
          rcases session with f | s
          · exact hopened.frame n₁.handles
          · exact Heeds.add hopened

/-! ## Operations -/

theorem start_heeds (n : Node) : n.Heeds n.start.2 := by
  obtain ⟨_, _, _, _, hstart⟩ := n.start_eq
  unfold Heeds handles
  rw [hstart]
  exact .refl _ _

theorem closeDepot_host (s : Site) : s.closeDepot.host = s.host := by
  unfold Site.closeDepot
  dsimp only
  generalize s.depot.walks = walks
  suffices h : ∀ s : Site, (walks.foldl (fun s (x : Nat × MachinePair.Walk) =>
      s.finishBuild x.1 x.2.deadline.spent (.error (.buildFailed x.2.root
        (MachinePair.hostIoReason .cancelled)))) s).host = s.host from h _
  induction walks with
  | nil => exact fun _ => rfl
  | cons x walks ih => exact fun s => ih _

/-- Whatever is asked of a node, the handles of others are left alone. -/
theorem perform_heeds (hg : n.site.IsGenuine) (op : Op) : n.Heeds (n.perform op).2 := by
  have hruns := Site.outlastsRuns_leavesOthers n.site
  have hself : ∀ hs, LeavesOthers n.site.host.registry hs n.site.host.registry hs :=
    fun hs => .refl _ hs
  have hlaunched : ∀ metrics : Metrics, ∀ hs, LeavesOthers n.site.host.registry hs
      ({ n.site with metrics } : Site).host.registry hs := fun _ => hself
  cases op with
  | start => exact n.start_heeds
  | disableNative => exact .refl _ _
  | run root x =>
    exact .of_site (hruns.complete _ _ x (hlaunched _))
  | runBy kind root x =>
    exact .of_site (hruns.complete _ _ x (hlaunched _))
  | runAll root xs => exact .of_site (hruns.runAll _ root xs hself)
  | runClosed root x =>
    exact .of_site (hruns.complete _ _ x (hlaunched _))
  | runWithin root x ms =>
    exact .of_site (hruns.completeWithin _ _ x _ (hlaunched _))
  | openSession root x => exact openSession_heeds hg root x
  | ask i question =>
    unfold perform
    dsimp only
    cases hi : n.sessions[i]? with
    | none => exact .refl _ _
    | some s => exact ask_heeds hi question
  | closeSession i =>
    unfold perform
    dsimp only
    cases hi : n.sessions[i]? with
    | none => exact .refl _ _
    | some s => exact closeSession_heeds hi
  | machines root => exact .of_site (hruns.pair none root hself)
  | closeDepot => exact .of_site fun hs => (closeDepot_host n.site).symm ▸ hself hs
  | stop => exact .of_site fun hs => (closeDepot_host n.site).symm ▸ hself hs

end Node

end Rerun
