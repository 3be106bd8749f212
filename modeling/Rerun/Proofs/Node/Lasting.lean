import Rerun.Node.History
import Rerun.Proofs.Site.Lasting

/-!
# Work at a node

Runs and sessions leave a node as it was but for its site and its sessions, and whatever holds of
its site and outlasts all work still holds (`perform_worked`). So it holds after any history, if
closing the depot does not take it away either (`performAll_site`).
-/

namespace Rerun.Node

variable {P : Site → Prop} {n n' n'' : Node}

/-! ## Work -/

/-- A node that did some work at its site and with its sessions, and kept a property of its site. -/
def Worked (P : Site → Prop) (n n' : Node) : Prop :=
  ∃ site sessions, n' = { n with site, sessions } ∧ (P n.site → P site)

theorem Worked.refl (P : Site → Prop) (n : Node) : Worked P n n :=
  ⟨n.site, n.sessions, rfl, id⟩

theorem Worked.trans (h : Worked P n n') (h' : Worked P n' n'') : Worked P n n'' := by
  obtain ⟨site, sessions, rfl, hsite⟩ := h
  obtain ⟨site', sessions', rfl, hsite'⟩ := h'
  exact ⟨site', sessions', rfl, fun hn => hsite' (hsite hn)⟩

theorem Worked.at_site {site : Site} (h : P n.site → P site) : Worked P n { n with site } :=
  ⟨site, n.sessions, rfl, h⟩

theorem Worked.site (h : Worked P n n') (hn : P n.site) : P n'.site := by
  obtain ⟨site, sessions, rfl, hsite⟩ := h
  exact hsite hn

section Work

variable (hP : Site.Lasting P)

include hP

theorem launch_worked (kind : Runner.Kind) (root : Digest) (x : Input) :
    Worked P n (n.launch kind root x).2 := .at_site (hP.counted _)

theorem complete_worked (kind : Runner.Kind) (run : Run) (x : Input) :
    Worked P n (n.complete kind run x).2 := .at_site (hP.runs.complete (n.runner kind) run x)

theorem runWithin_worked (kind : Runner.Kind) (root : Digest) (x : Input) (ms : Nat) :
    Worked P n (n.runWithin kind root x ms).2.2 := by
  have hlaunched : Worked P n (n.launch kind root x).2 := launch_worked hP kind root x
  unfold runWithin
  exact hlaunched.trans (.at_site (hP.runs.completeWithin (n.runner kind) _ x _))

theorem Worked.at_host {host : Host} (hf : host.files = n.site.host.files) :
    Worked P n { n with site := { n.site with host } } := .at_site (hP.withHost hf)

theorem settle_worked {α : Type} {host : Host} (hf : host.files = n.site.host.files)
    (r : Result α) : Worked P n (n.settle host r).2 :=
  .at_site fun h => hP.runs.settle r (hP.withHost hf h)

theorem ask_worked (i : Nat) (s : Session) (question : Session.Ask) :
    Worked P n (n.ask i s question).2 := by
  unfold ask
  split
  · exact .refl P n
  · have hfiles := Session.job_files n.site.host n.site.clock.horizon .never s question
    dsimp only
    generalize s.job n.site.host n.site.clock.horizon .never question = a at hfiles ⊢
    have hset : Worked P n { n with sessions := n.sessions.set i a.session } :=
      ⟨n.site, n.sessions.set i a.session, rfl, id⟩
    refine hset.trans (settle_worked hP ?_ a.result)
    exact hfiles

theorem closeSession_worked (i : Nat) (s : Session) : Worked P n (n.closeSession i s) :=
  ⟨_, _, rfl, hP.withHost (Session.close_files n.site.host s)⟩

theorem openSession_worked (root : Digest) (x : Input) :
    Worked P n (n.openSession root x).2 := by
  have hfound : Worked P n (n.machines root).2 := .at_site (hP.runs.pair none root)
  unfold openSession
  split
  · exact .refl P n
  · generalize n.machines root = found at hfound ⊢
    obtain ⟨answer, n₁⟩ := found
    rcases answer with _ | (e | pair)
    · exact hfound
    · exact hfound
    · dsimp only at hfound ⊢
      split
      · exact hfound
      · have hprepared := Session.prepare_files n₁.site.host pair.zeroStep x
        generalize Session.prepare n₁.site.host pair.zeroStep x = prepared at hprepared ⊢
        obtain ⟨result, host⟩ := prepared
        have hsettled := hfound.trans (settle_worked hP hprepared result)
        dsimp only
        generalize n₁.settle host result = settled at hsettled ⊢
        obtain ⟨settled, n₂⟩ := settled
        rcases settled with f | h
        · exact hsettled
        · have hopened := Session.ofPrepared_files n₂.site.host root h
            n₂.config.interpreter.stepChunk
          dsimp only at hsettled ⊢
          generalize Session.ofPrepared n₂.site.host root h n₂.config.interpreter.stepChunk =
            opened at hopened ⊢
          obtain ⟨session, host'⟩ := opened
          have hend := hsettled.trans (.at_host hP hopened)
          rcases session with f | s
          · exact hend
          · exact hend.trans ⟨_, _, rfl, id⟩

end Work

/-! ## Operations -/

/-- Whether an operation is one of those that begin or end the work of a node, or of a part of it.
-/
def Op.isSwitch : Op → Bool
  | .start | .disableNative | .closeDepot | .stop => true
  | _ => false

/-- The start of a node changes neither its site nor its sessions. -/
theorem start_eq (n : Node) : ∃ interpreter native isNative reports,
    n.start.2 = { n with interpreter, native, isNative, reports } := by
  unfold start startInterpreter startNative
  cases n.interpreter.start n.site.backend with
  | error e => exact ⟨_, _, _, _, rfl⟩
  | ok interpreter =>
    dsimp only
    split
    · exact ⟨_, _, _, _, rfl⟩
    · cases n.native with
      | none => exact ⟨_, _, _, _, rfl⟩
      | some r =>
        dsimp only
        cases r.start n.site.backend <;> exact ⟨_, _, _, _, rfl⟩

theorem start_site (n : Node) : n.start.2.site = n.site := by
  obtain ⟨_, _, _, _, hstart⟩ := n.start_eq
  rw [hstart]

theorem perform_worked (hP : Site.Lasting P) {op : Op} (hop : op.isSwitch = false) :
    Worked P n (n.perform op).2 := by
  cases op with
  | run root x =>
    unfold perform Node.run
    exact (launch_worked hP n.serving root x).trans (complete_worked hP n.serving _ x)
  | runBy kind root x =>
    unfold perform Node.run
    exact (launch_worked hP kind root x).trans (complete_worked hP kind _ x)
  | runAll root xs => exact .at_site (hP.runs.runAll (n.runner n.serving) root xs)
  | runClosed root x =>
    unfold perform runClosed
    exact (launch_worked hP n.serving root x).trans (complete_worked hP n.serving _ x)
  | runWithin root x ms => exact runWithin_worked hP n.serving root x ms
  | openSession root x => exact openSession_worked hP root x
  | ask i question =>
    unfold perform
    dsimp only
    split
    · exact .refl P n
    · exact ask_worked hP i _ question
  | closeSession i =>
    unfold perform
    dsimp only
    split
    · exact .refl P n
    · exact closeSession_worked hP i _
  | machines root => exact .at_site (hP.runs.pair none root)
  | start => cases hop
  | disableNative => cases hop
  | closeDepot => cases hop
  | stop => cases hop

/-! ## Histories -/

theorem performAll_append (n : Node) (ops ops' : List Op) :
    n.performAll (ops ++ ops') =
      ((n.performAll ops).1 ++ ((n.performAll ops).2.performAll ops').1,
        ((n.performAll ops).2.performAll ops').2) := by
  induction ops generalizing n with
  | nil => rfl
  | cons op ops ih =>
    show ((n.perform op).1 :: ((n.perform op).2.performAll (ops ++ ops')).1,
      ((n.perform op).2.performAll (ops ++ ops')).2) = _
    rw [ih]
    rfl

/-- What outlasts all work and closing time is there after any history. -/
theorem performAll_site (hP : Site.Lasting P) (hclose : ∀ {s}, P s → P s.closeDepot)
    (ops : List Op) (h : P n.site) : P (n.performAll ops).2.site := by
  induction ops generalizing n with
  | nil => exact h
  | cons op ops ih =>
    refine ih ?_
    cases hop : op.isSwitch with
    | false => exact (perform_worked hP hop).site h
    | true =>
      cases op with
      | start => exact n.start_site ▸ h
      | disableNative => exact h
      | closeDepot => exact hclose h
      | stop => exact hclose h
      | _ => cases hop

end Rerun.Node
