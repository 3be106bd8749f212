import Rerun.Node.Concurrent
import Rerun.Proofs.Node.Stopped

/-!
# Runs that nothing comes in between

A node that carries out a run does nothing else meanwhile. That is one of the ways in which the task
of a run can go: it asks for its machines, builds go on until it hears of them, it takes a worker
and a copy, and the run is handed how that ended (`run_is_course`).
-/

namespace Rerun

/-- A run on a copy goes as a task that has a worker. -/
theorem Handle.runCopy_eq_prepare (host : Host) (x : Input) (d : Deadline) (advance : Advance)
    (source : Handle) :
    source.runCopy host x d advance =
      match Session.prepare host source x with
      | (.error f, host) => ⟨.error f, d, host⟩
      | (.ok h, host) => h.finish host d advance := by
  unfold runCopy Session.prepare
  cases source.copy host with
  | error f => rfl
  | ok copied =>
    obtain ⟨h, host'⟩ := copied
    dsimp only
    cases h.supply host' x <;> rfl

theorem Runner.refusal_of_isStopped (r : Runner) : r.refusal r.isStopped = r.refusal false := by
  unfold refusal
  rw [Bool.or_self, Bool.or_false]

namespace Node.Concurrent

/-- What can become of a node and its tasks. -/
def Reaches (t t' : Concurrent) : Prop := ∃ events, t.steps events = t'

variable {t t' t'' : Concurrent}

theorem Reaches.refl (t : Concurrent) : t.Reaches t := ⟨[], rfl⟩

theorem Reaches.trans (h : t.Reaches t') (h' : t'.Reaches t'') : t.Reaches t'' := by
  obtain ⟨events, rfl⟩ := h
  obtain ⟨events', rfl⟩ := h'
  exact ⟨events ++ events', List.foldl_append⟩

theorem Reaches.step (t : Concurrent) (e : Event) : t.Reaches (t.step e) := ⟨[e], rfl⟩

/-! ## One run -/

/-- A task that sees its runner as its node does, for nothing became of either since the launch. -/
structure Sees (n : Node) (f : Task) : Prop where
  isStarted : f.wasStarted = (n.runner f.kind).isStarted
  isClosed : f.run.isClosed = (n.runner f.kind).isStopped

/-- A task that is the only one at its node, which has some site by now. -/
def alone (n : Node) (held : List Runner.Kind) (f : Task) (s : Site) (stage : Task.Stage)
    (looked : Bool := false) : Concurrent where
  node := { n with site := s }
  tasks := [{ f with stage, looked }]
  held

section Alone

variable {n : Node} {held : List Runner.Kind} {f : Task} {s : Site} {stage : Task.Stage}
  {looked : Bool}

theorem alone_site : (alone n held f s stage looked).node.site = s := rfl

theorem runner_alone (hf : Sees n f) :
    (alone n held f s stage looked).runner { f with stage, looked } = n.runner f.kind := by
  unfold runner alone
  dsimp only
  rw [runner_withSite, hf.isStarted, hf.isClosed, Bool.or_self]

variable (n held f s stage looked)

theorem Reaches.on (h : Happening) :
    (alone n held f s stage looked).Reaches
      ((alone n held f s stage looked).handle 0 { f with stage, looked } h) := .step _ (.on 0 h)

theorem Reaches.pass (looks : Nat) (builds : List Nat) :
    (alone n held f s stage looked).Reaches
      (alone n held f (s.pass looks builds) stage looked) := by
  induction builds generalizing s with
  | nil => exact .refl _
  | cons k builds ih => exact (Reaches.step _ (.goOn (some looks) k)).trans (ih _)

theorem Reaches.await (patience : Option Nat) (ticket : Cache.Ticket MachinePair) :
    (alone n held f s stage looked).Reaches
      (alone n held f (s.await patience ticket).2 stage looked) := by
  cases ticket with
  | value pair => exact .refl _
  | build k => exact (Reaches.step _ (.goOn patience k)).trans (.pass n held f _ _ _ _ _)

end Alone

/-! ## The work on the run -/

section Work

variable {n : Node} (held : List Runner.Kind) {f : Task} (hf : Sees n f)
  (hroom : 0 < (n.runner f.kind).pool.size) (s : Site)

include hf hroom

/-- The work on a worker. -/
theorem Reaches.onWorker (d : Deadline) (pair : MachinePair)
    (hends : ((n.runner f.kind).onWorker s f.input d pair).1 ≠ .error .endless) :
    (alone n held f s (.equipped pair)).Reaches
      (alone n held f ((n.runner f.kind).onWorker s f.input d pair).2.2
        (.ended ((n.runner f.kind).onWorker s f.input d pair).1)) := by
  have hlook := Reaches.on n held f s (.equipped pair) false .look
  have hacquire := Reaches.on n held f s (.equipped pair) true .acquire
  unfold handle at hlook hacquire
  dsimp only at hlook hacquire
  rw [runner_alone hf] at hlook hacquire
  unfold Runner.onWorker at hends ⊢
  cases hstopped : (n.runner f.kind).isStopped with
  | true =>
    rw [hstopped] at hlook
    exact hlook
  | false =>
    rw [hstopped] at hlook hends
    refine Reaches.trans hlook ?_
    cases hr : (n.runner f.kind).pool.refusal false with
    | some e =>
      rw [hr] at hacquire
      exact hacquire
    | none =>
      rw [hr] at hacquire hends
      dsimp only at hacquire hends ⊢
      have hidle : (alone n held f s (.equipped pair) true).busy f.kind = 0 := by
        unfold busy alone
        simp [Task.hasWorker]
      rw [hidle, if_pos hroom, alone_site] at hacquire
      rw [Handle.runCopy_eq_prepare] at hends ⊢
      -- the task gets a copy with its input, or word that there is none
      generalize Session.prepare s.host ((n.runner f.kind).source pair) f.input = prepared
        at hacquire hends ⊢
      obtain ⟨e | copy, host⟩ := prepared
      · exact hacquire
      · refine hacquire.trans ?_
        have hwork := Reaches.on n held f { s with host } (.copied copy) false (.work d)
        unfold handle at hwork
        dsimp only at hwork
        rw [runner_alone hf] at hwork
        split at hwork
        · rename_i hendless
          exact absurd (congrArg (fun r => (Site.settle _ r).1) hendless) hends
        · exact hwork

/-- The work with the machines that the task hears of. -/
theorem Reaches.withPair (ticket : Cache.Ticket MachinePair) (d : Deadline)
    (hd : d.limit.isSome → (Config.limit? (n.runner f.kind).timeoutMs).isSome)
    (hends : ((n.runner f.kind).withPair s f.input d (s.depot.cache.answer? ticket)).1 ≠
      .error .endless) :
    (alone n held f s (.asked ticket) true).Reaches
      (alone n held f
        ((n.runner f.kind).withPair s f.input d (s.depot.cache.answer? ticket)).2.2
        (.ended ((n.runner f.kind).withPair s f.input d (s.depot.cache.answer? ticket)).1)) := by
  have hhear := Reaches.on n held f s (.asked ticket) true .hear
  have htimeOut := Reaches.on n held f s (.asked ticket) true .timeOut
  unfold handle at hhear htimeOut
  dsimp only at hhear htimeOut
  rw [runner_alone hf] at htimeOut
  rw [alone_site] at hhear
  unfold Runner.withPair at hends ⊢
  rcases hanswer : s.depot.cache.answer? ticket with _ | (e | pair)
  · rw [hanswer] at hends
    dsimp only at hends ⊢
    split at hends
    · rename_i hlimited
      rw [if_pos (hd hlimited)] at htimeOut
      rw [if_pos hlimited]
      exact htimeOut
    · exact absurd rfl hends
  · rw [hanswer] at hhear
    exact hhear
  · rw [hanswer] at hends hhear
    exact hhear.trans (.onWorker held hf hroom s d pair hends)

/-- All the work on the run. -/
theorem Reaches.work
    (hends : ((n.runner f.kind).work s f.run.root f.input f.run.isClosed none).1 ≠
      .error .endless) :
    (alone n held f s .launched).Reaches
      (alone n held f
        ((n.runner f.kind).work s f.run.root f.input f.run.isClosed none).2.2
        (.ended ((n.runner f.kind).work s f.run.root f.input f.run.isClosed none).1)) := by
  have hlook := Reaches.on n held f s .launched false .look
  have hask := Reaches.on n held f s .launched true .ask
  unfold handle at hlook hask
  dsimp only at hlook hask
  rw [runner_alone hf, ← Runner.refusal_of_isStopped, ← hf.isClosed] at hlook
  cases hr : (n.runner f.kind).refusal f.run.isClosed with
  | some e =>
    rw [hr] at hlook
    rw [Runner.work_refused hr]
    exact hlook
  | none =>
    let limit := (n.runner f.kind).limit s.clock none
    rw [hr] at hlook
    rw [alone_site] at hask
    rw [Runner.work_eq hr] at hends ⊢
    unfold Site.pair at hends ⊢
    generalize s.request f.run.root = asked at hask hends ⊢
    obtain ⟨ticket, s₁⟩ := asked
    have hawait := Reaches.await n held f s₁ (.asked ticket) true limit ticket
    dsimp only at hask hends ⊢
    generalize s₁.await limit ticket = waited at hawait hends ⊢
    obtain ⟨looks, s₂⟩ := waited
    have hlimit : (Runner.deadline s₂.clock limit looks).limit.isSome →
        (Config.limit? (n.runner f.kind).timeoutMs).isSome := by
      show limit.isSome → _
      unfold limit Runner.limit
      cases Config.limit? (n.runner f.kind).timeoutMs with
      | none => exact id
      | some ms => exact fun _ => rfl
    have hasked := (Reaches.trans hlook hask).trans hawait
    exact (hasked.trans (.withPair held hf hroom s₂ ticket _ hlimit hends)).trans
      (.pass n held f _ _ _ _ _)

end Work

/-- A node that carries out a run, and gets an outcome, comes to what becomes of it when the run is
in flight and nothing else happens. -/
theorem run_is_course (n : Node) (kind : Runner.Kind) (root : Digest) (x : Input)
    (hroom : 0 < n.room kind) (hends : (n.run kind root x).1.outcome?.isSome) :
    ∃ f : Task, f.run = (n.run kind root x).1 ∧
      Reaches { node := n, held := [kind] }
        { node := (n.run kind root x).2, tasks := [f], held := [kind] } := by
  let r := n.runner kind
  let s : Site := { n.site with metrics := n.site.metrics.recordLaunch }
  let f : Task :=
    { kind, input := x, run := r.launched root x, wasStarted := r.isStarted }
  obtain ⟨result, looks, s', hw⟩ :
      ∃ result looks s', r.work s root x f.run.isClosed none = (result, looks, s') :=
    ⟨_, _, _, rfl⟩
  obtain ⟨run, s'', hended⟩ : ∃ run s'', Runner.deliver s' f.run looks result = (run, s'') :=
    ⟨_, _, rfl⟩
  have hrun : n.run kind root x = (run, { n with site := s'' }) := by
    have hcomplete : r.complete s f.run x = (run, s'') := by
      unfold Runner.complete
      rw [show r.work s f.run.root x f.run.isClosed none = _ from hw]
      exact hended
    unfold Node.run
    rw [show n.launch kind root x = (f.run, { n with site := s }) from rfl]
    dsimp only
    unfold Node.complete
    rw [runner_withSite, hcomplete]
  have hworked : result ≠ .error .endless := by
    rintro rfl
    cases hended
    rw [hrun] at hends
    cases hends
  have hlaunch : step { node := n, held := [kind] } (.launch kind root x) =
      alone n [kind] f s .launched := by
    have hheld : [kind].contains kind = true := by simp
    unfold step
    dsimp only
    rw [if_pos hheld]
    rfl
  have hwork := Reaches.work [kind] (n := n) (f := f) ⟨rfl, rfl⟩ hroom s
  rw [show r.work s f.run.root x f.run.isClosed none = _ from hw] at hwork
  have hdeliver := Reaches.on n [kind] f s' (.ended result) false (.deliver looks)
  unfold handle at hdeliver
  dsimp only at hdeliver
  rw [alone_site, hended] at hdeliver
  refine ⟨{ f with run, stage := .delivered }, ?_, ?_⟩
  · rw [hrun]
  · rw [hrun]
    exact ((hlaunch ▸ Reaches.step _ _).trans (hwork hworked)).trans hdeliver

end Node.Concurrent

end Rerun
