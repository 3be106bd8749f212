import Rerun.Proofs.Node.Isolation
import Rerun.Proofs.Node.Lasting

/-!
# The runners of a node

Only starting and stopping a node does something to its runners, and neither is ever undone: a
runner that was started or stopped stays so (`performAll_later`). Nobody is given the native runner
before it was started, so whoever was given a runner can rely on it (`HandedOut.isReady`).
-/

namespace Rerun

/-! ## What becomes of a runner -/

namespace Runner

variable {r r' r'' : Runner}

/-- Whether the pool of a runner is closed only if the runner was stopped. -/
def IsTidy (r : Runner) : Prop := r.pool.isClosed = true → r.isStopped = true

/-- A runner that may have been started or stopped since. -/
structure Later (r r' : Runner) : Prop where
  kind : r'.kind = r.kind
  poolName : r'.pool.name = r.pool.name
  isStarted : r.isStarted = true → r'.isStarted = true
  isStopped : r.isStopped = true → r'.isStopped = true
  isTidy : r.IsTidy → r'.IsTidy

theorem Later.refl (r : Runner) : r.Later r := ⟨rfl, rfl, id, id, id⟩

theorem Later.trans (h : r.Later r') (h' : r'.Later r'') : r.Later r'' where
  kind := h'.kind.trans h.kind
  poolName := h'.poolName.trans h.poolName
  isStarted hs := h'.isStarted (h.isStarted hs)
  isStopped hs := h'.isStopped (h.isStopped hs)
  isTidy ht := h'.isTidy (h.isTidy ht)

theorem start_later {b : Backend} (h : r.start b = .ok r') : r.Later r' := by
  rw [start_eq_ok h]
  exact ⟨rfl, rfl, fun _ => rfl, id, id⟩

theorem stop_later (r : Runner) : r.Later r.stop :=
  ⟨rfl, rfl, id, fun _ => rfl, fun _ _ => rfl⟩

/-- Whether nobody has to start a runner any more. -/
def IsReady (r : Runner) : Prop := r.kind = .native → r.isStarted = true

theorem Later.isReady (h : r.Later r') (hr : r.IsReady) : r'.IsReady := fun hk =>
  h.isStarted (hr (h.kind.symm.trans hk))

theorem isReady_start {b : Backend} (h : r.start b = .ok r') : r'.IsReady := by
  rw [start_eq_ok h]
  exact fun _ => rfl

/-- A ready runner refuses a run only because somebody stopped it or closed the run. -/
theorem refusal_of_isReady (h : r.IsReady) (isClosed : Bool) :
    r.refusal isClosed = if r.isStopped || isClosed then some .cancelled else none := by
  unfold refusal
  rw [if_neg]
  rintro ⟨hk, hs⟩
  rw [h hk] at hs
  cases hs

end Runner

namespace Node

variable {config : Config} {place : Place} {reports : Reports} {n n' n'' : Node}

/-! ## What becomes of a node -/

/-- A node whose runners may have been started or stopped since. -/
def Later (n n' : Node) : Prop := ∀ kind, (n.runner kind).Later (n'.runner kind)

theorem Later.refl (n : Node) : n.Later n := fun _ => .refl _

theorem Later.trans (h : n.Later n') (h' : n'.Later n'') : n.Later n'' := fun kind =>
  (h kind).trans (h' kind)

theorem Worked.later {P : Site → Prop} (h : Worked P n n') : n.Later n' := by
  obtain ⟨site, sessions, rfl, -⟩ := h
  intro kind
  cases kind <;> exact .refl _

/-- Whether the runner that takes new runs is ready, and the interpreter, which takes them when the
native runner does not. -/
structure Wired (n : Node) : Prop where
  interpreter : n.interpreter.IsReady
  native : n.isNative = true → (n.runner .native).IsReady

theorem Wired.serving (h : n.Wired) : (n.runner n.serving).IsReady := by
  unfold Node.serving
  split
  · rename_i hn
    exact h.native (Bool.and_eq_true_iff.1 hn).1
  · exact h.interpreter

theorem Wired.later (hw : n.Wired) (h : n.Later n') (hn : n'.isNative = true → n.isNative = true) :
    n'.Wired :=
  ⟨(h .interpreter).isReady hw.interpreter, fun hn' => (h .native).isReady (hw.native (hn hn'))⟩

theorem start_later (n : Node) : n.Later n.start.2 := by
  unfold start startInterpreter startNative
  cases hi : n.interpreter.start n.site.backend with
  | error e => exact .refl n
  | ok interpreter =>
    have hlater := Runner.start_later hi
    cases hn : n.native with
    | none =>
      rintro (_ | _)
      · exact hlater
      · simpa [runner, hn] using hlater
    | some r =>
      dsimp only
      cases hr : r.start n.site.backend with
      | ok r' =>
        rintro (_ | _)
        · exact hlater
        · simpa [runner, hn] using Runner.start_later hr
      | error e =>
        rintro (_ | _)
        · exact hlater
        · simpa [runner, hn] using Runner.Later.refl r

theorem start_wired (h : n.Wired) : n.start.2.Wired := by
  have hlater := n.start_later
  have hnative : n.start.2.isNative = true →
      n.isNative = true ∨ (n.start.2.runner .native).IsReady := by
    unfold start startInterpreter startNative
    cases n.interpreter.start n.site.backend with
    | error e => exact .inl
    | ok interpreter =>
      cases hn : n.native with
      | none => exact fun h => .inl (by simpa [hn] using h)
      | some r =>
        dsimp only
        cases hr : r.start n.site.backend with
        | ok r' => exact fun _ => .inr (Runner.isReady_start hr)
        | error e => exact .inl
  refine ⟨(hlater .interpreter).isReady h.interpreter, fun hn => ?_⟩
  rcases hnative hn with hn | hr
  · exact (hlater .native).isReady (h.native hn)
  · exact hr

theorem stop_later (n : Node) : n.Later n.stop := by
  rintro (_ | _)
  · exact n.interpreter.stop_later
  · show (n.native.getD n.interpreter).Later ((n.native.map Runner.stop).getD n.interpreter.stop)
    cases n.native with
    | none => exact n.interpreter.stop_later
    | some r => exact r.stop_later

/-! ## Histories -/

/-- Nothing that is done at a node takes anything away from its runners. -/
theorem perform_later (n : Node) (op : Op) : n.Later (n.perform op).2 := by
  cases hop : op.isSwitch with
  | false => exact (perform_worked Site.lasting_true hop).later
  | true =>
    cases op with
    | start => exact n.start_later
    | disableNative => rintro (_ | _) <;> exact .refl _
    | closeDepot => rintro (_ | _) <;> exact .refl _
    | stop => exact n.stop_later
    | _ => cases hop

theorem performAll_later (n : Node) (ops : List Op) : n.Later (n.performAll ops).2 := by
  induction ops generalizing n with
  | nil => exact .refl n
  | cons op ops ih => exact (n.perform_later op).trans (ih _)

theorem perform_wired (h : n.Wired) (op : Op) : (n.perform op).2.Wired := by
  cases hop : op.isSwitch with
  | false =>
    refine h.later (n.perform_later op) ?_
    obtain ⟨site, sessions, hsame, -⟩ := perform_worked (n := n) Site.lasting_true hop
    rw [hsame]
    exact id
  | true =>
    cases op with
    | start => exact start_wired h
    | disableNative => exact h.later (n.perform_later .disableNative) fun hn => nomatch hn
    | closeDepot => exact h.later (n.perform_later .closeDepot) id
    | stop => exact h.later (n.perform_later .stop) id
    | _ => cases hop

theorem performAll_wired (h : n.Wired) (ops : List Op) : (n.performAll ops).2.Wired := by
  induction ops generalizing n with
  | nil => exact h
  | cons op ops ih => exact ih (perform_wired h op)

/-! ## Who is given a runner -/

theorem wired_of_create (h : create config place reports = .ok n) : n.Wired := by
  have hnew := isNew_of_create h
  constructor
  · intro hnative
    rw [hnew.kind] at hnative
    cases hnative
  · intro hnative
    rw [hnew.isNative] at hnative
    cases hnative

/-- Whether someone can have been given the runner of a kind before or during a history: it took new
runs at some time. -/
def HandedOut (n : Node) (ops : List Op) (kind : Runner.Kind) : Prop :=
  ∃ past, past <+: ops ∧ (n.performAll past).2.serving = kind

/-- A runner that someone was given is ready. -/
theorem HandedOut.isReady {ops : List Op} {kind : Runner.Kind} (h : n.HandedOut ops kind)
    (hw : n.Wired) : ((n.performAll ops).2.runner kind).IsReady := by
  obtain ⟨past, ⟨future, rfl⟩, hk⟩ := h
  have hserving := (performAll_wired hw past).serving
  rw [hk] at hserving
  rw [performAll_append]
  exact (performAll_later _ future kind).isReady hserving

end Node

end Rerun
