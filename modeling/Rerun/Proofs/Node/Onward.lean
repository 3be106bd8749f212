import Rerun.Proofs.Node.Lasting
import Rerun.Proofs.Runner

/-!
# What operations leave behind

Without limits on builds and with the reference engine, a node that was started keeps its runners,
and its site stays in order, as long as nothing is closed: after one operation (`perform_onward`)
and after any number of them (`performAll_onward`).
-/

namespace Rerun

/-! ## Runners that were started -/

namespace Runner

/-- A runner after someone tried to start it. -/
def tried (r : Runner) (b : Backend) : Runner :=
  match r.start b with
  | .ok r' => r'
  | .error _ => r

theorem start_interpreter {r : Runner} (hr : r.kind = .interpreter) (b : Backend) :
    r.start b = .ok { r with isStarted := true } := by
  unfold start
  rw [hr]

theorem start_eq_ok {r r' : Runner} {b : Backend} (h : r.start b = .ok r') :
    r' = { r with isStarted := true } := by
  unfold start at h
  split at h
  · cases h
    rfl
  · split at h
    · cases h
      rfl
    · cases h

/-- Trying again changes nothing. -/
@[simp] theorem tried_tried (r : Runner) (b : Backend) : (r.tried b).tried b = r.tried b := by
  cases hr : r.start b with
  | error e =>
    have hsame : r.tried b = r := by
      unfold tried
      rw [hr]
    rw [hsame, hsame]
  | ok r' =>
    have hstarted : r.tried b = { r with isStarted := true } := by
      unfold tried
      rw [hr]
      exact start_eq_ok hr
    rw [hstarted]
    unfold tried
    split
    · rename_i r'' hr''
      exact start_eq_ok hr''
    · rfl

theorem tried_cases (r : Runner) (b : Backend) :
    r.tried b = r ∨ r.tried b = { r with isStarted := true } := by
  unfold tried
  split
  · rename_i r' hr
    exact .inr (start_eq_ok hr)
  · exact .inl rfl

theorem tried_timeoutMs (r : Runner) (b : Backend) : (r.tried b).timeoutMs = r.timeoutMs := by
  rcases r.tried_cases b with h | h <;> rw [h]

theorem tried_kind (r : Runner) (b : Backend) : (r.tried b).kind = r.kind := by
  rcases r.tried_cases b with h | h <;> rw [h]

end Runner

namespace Node

variable {n₀ n n' n'' : Node}

/-- What becomes of the runners of a node that is started. -/
theorem start_runners (hk : n.interpreter.kind = .interpreter) :
    n.start.2.site = n.site ∧ n.start.2.interpreter = n.interpreter.tried n.site.backend ∧
      n.start.2.native = n.native.map (·.tried n.site.backend) := by
  have htried : n.interpreter.tried n.site.backend = { n.interpreter with isStarted := true } := by
    unfold Runner.tried
    rw [Runner.start_interpreter hk]
  rw [htried]
  unfold start startInterpreter
  rw [Runner.start_interpreter hk]
  cases hn : n.native with
  | none =>
    simp
  | some r =>
    unfold startNative Runner.tried
    cases hr : r.start n.site.backend <;> simp [hr]

/-! ## After any operations -/

/-- What holds of a node that came out of another one. -/
structure After (n₀ n : Node) : Prop where
  interpreter : n.interpreter = n₀.interpreter
  native : n.native = n₀.native
  site : n₀.site.After n.site

/-- A node that was started. Starting it again changes nothing. -/
structure IsStarted (n : Node) : Prop where
  kind : n.interpreter.kind = .interpreter
  interpreter : n.interpreter.tried n.site.backend = n.interpreter
  native : n.native.map (·.tried n.site.backend) = n.native

theorem isStarted_start (hk : n.interpreter.kind = .interpreter) : IsStarted n.start.2 := by
  obtain ⟨hsite, hinterpreter, hnative⟩ := start_runners hk
  constructor
  · rw [hinterpreter, Runner.tried_kind, hk]
  · rw [hinterpreter, hsite, Runner.tried_tried]
  · rw [hnative, hsite, Option.map_map]
    congr 1
    funext r
    exact r.tried_tried _

theorem After.runner (h : After n₀ n) (kind : Runner.Kind) : n.runner kind = n₀.runner kind := by
  cases kind with
  | interpreter => exact h.interpreter
  | native =>
    unfold Node.runner
    dsimp only
    rw [h.native, h.interpreter]

/-- Something that was done leaves a node in order, if it was in order. -/
def Onward (n₀ n n' : Node) : Prop := After n₀ n → After n₀ n' ∧ n.site.Grows n'.site

theorem Onward.refl (n₀ n : Node) : Onward n₀ n n := fun h => ⟨h, .refl n.site⟩

theorem Onward.trans (h : Onward n₀ n n') (h' : Onward n₀ n' n'') : Onward n₀ n n'' := by
  intro ha
  obtain ⟨ha', hg⟩ := h ha
  obtain ⟨ha'', hg'⟩ := h' ha'
  exact ⟨ha'', hg.trans hg'⟩

/-- What leaves the runners and brings the site onward brings the node onward. -/
theorem Onward.of_site (hi : n'.interpreter = n.interpreter) (hn : n'.native = n.native)
    (hs : n₀.site.Onward n.site n'.site) : Onward n₀ n n' := by
  intro h
  obtain ⟨hsite, hgrows⟩ := hs h.site
  exact ⟨⟨hi.trans h.interpreter, hn.trans h.native, hsite⟩, hgrows⟩

theorem start_onward (hs : IsStarted n₀) : Onward n₀ n n.start.2 := by
  intro h
  have hk : n.interpreter.kind = .interpreter := by rw [h.interpreter, hs.kind]
  obtain ⟨hsite, hinterpreter, hnative⟩ := start_runners hk
  have hgrows : n.site.Grows n.start.2.site := by
    rw [hsite]
    exact .refl n.site
  refine ⟨⟨?_, ?_, hsite ▸ h.site⟩, hgrows⟩
  · rw [hinterpreter, h.interpreter, h.site.backend, hs.interpreter]
  · rw [hnative, h.native, h.site.backend, hs.native]

/-! ## Runs -/

variable (kind : Runner.Kind)

/-- A runner does not depend on the site. -/
theorem runner_withSite (n : Node) (site : Site) :
    Node.runner { n with site } kind = n.runner kind := by
  cases kind <;> rfl

/-- A node carries out a run with a runner at its site. -/
theorem run_eq (root : Digest) (n : Node) (x : Input) :
    n.run kind root x = (((n.runner kind).run n.site root x).1,
      { n with site := ((n.runner kind).run n.site root x).2 }) := by
  unfold run launch complete
  dsimp only
  rw [runner_withSite]
  unfold Runner.run
  rfl

/-! ## Histories -/

/-- Whether an operation closes a node, or a part of it. -/
def Op.closes : Op → Bool
  | .closeDepot | .stop => true
  | _ => false

/-- An operation that closes nothing leaves a started node in order. -/
theorem perform_onward (hc : n₀.site.Calm) (hs : IsStarted n₀) {op : Op}
    (hop : op.closes = false) : Onward n₀ n (n.perform op).2 := by
  cases hswitch : op.isSwitch with
  | false =>
    obtain ⟨site, sessions, hn, hsite⟩ :=
      perform_worked (n := n) (Site.lasting_after hc n.site) hswitch
    rw [hn]
    exact .of_site rfl rfl fun ha => hsite ⟨ha, .refl n.site⟩
  | true =>
    cases op with
    | start => exact start_onward hs
    | disableNative => exact .of_site rfl rfl (.refl _ _)
    | closeDepot => cases hop
    | stop => cases hop
    | _ => cases hswitch

/-- So do several, one after the other. -/
theorem performAll_onward (hc : n₀.site.Calm) (hs : IsStarted n₀) {ops : List Op}
    (hops : ∀ op ∈ ops, op.closes = false) : Onward n₀ n (n.performAll ops).2 := by
  induction ops generalizing n with
  | nil => exact .refl n₀ n
  | cons op ops ih =>
    have hstep := perform_onward (n := n) hc hs (hops op (by simp))
    exact hstep.trans (ih fun op' hop' => hops op' (List.mem_cons_of_mem op hop'))

end Node

end Rerun
