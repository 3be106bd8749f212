import Mathlib.Data.List.Basic
import Rerun.Run.Ledger

/-!
# Delivering outcomes

The work on a run, those who close it and those who wait for it meet at one promise, which takes the
first outcome and no other. What is known of a run is never taken back (`Grows`), and the counters
say how the work on each run ended, once for each (`Tallied`). Together they say what everyone can
rely on whatever happens in whatever order (`delivered_once`).
-/

namespace Rerun

theorem Promise.await_eq {α : Type} {p : Promise α} {o : Except Error α} (h : p.outcome = some o)
    (isLimited : Bool) : p.await isLimited = o.mapError .error := by
  unfold await
  rw [h]
  cases o <;> rfl

namespace Run

theorem isResolved_iff {r : Run} : r.isResolved = true ↔ ∃ o, r.outcome? = some o :=
  Option.isSome_iff_exists

namespace Tracked

variable {t t' : Tracked} {outcome : Except Error GlobalState}

/-! ## What can happen to a run -/

/-- What something that happens to a run can do. -/
inductive Move (t : Tracked) : Tracked → Prop where
  | rest : Move t t
  | count (outcome : Except Error GlobalState) (here : t.work = .underWay) :
      Move t { t with work := .counted outcome }
  | hand {outcome : Except Error GlobalState} (here : t.work = .counted outcome) :
      Move t { t.offer outcome with work := .over outcome }
  | interrupt : Move t { t with run := t.run.cancel }
  | close : Move t { t with run := t.run.cancel, closers := t.closers ++ [.stopped] }
  | look {c : Nat} (here : t.closers[c]? = some .stopped) :
      Move t (t.setCloser c (if t.run.isResolved then .gone else .givingUp))
  | giveUp {c : Nat} (here : t.closers[c]? = some .givingUp) :
      Move t ((t.offer (.error .cancelled)).setCloser c .gone)
  | await (isLimited : Bool) : Move t { t with awaits := t.awaits ++ [t.listen isLimited] }
  | tell {w : Nat} {isLimited : Bool} (here : t.awaits[w]? = some (.waiting isLimited)) :
      Move t (t.setAwait w (t.listen isLimited))
  | timeOut {w : Nat} (here : t.awaits[w]? = some (.waiting true)) : Move t (t.setAwait w .timedOut)

theorem step_move (t : Tracked) (h : Happening) : Move t (t.step h) := by
  cases h with
  | count nanos outcome =>
    unfold step
    dsimp only
    split
    · rename_i here
      exact .count outcome here
    · exact .rest
  | hand =>
    unfold step
    dsimp only
    split
    · rename_i here
      exact .hand here
    · exact .rest
  | interrupt => exact .interrupt
  | close => exact .close
  | look c =>
    unfold step
    dsimp only
    split
    · rename_i here
      exact .look here
    · exact .rest
  | giveUp c =>
    unfold step
    dsimp only
    split
    · rename_i here
      exact .giveUp here
    · exact .rest
  | await isLimited => exact .await isLimited
  | tell w =>
    unfold step
    dsimp only
    split
    · rename_i here
      exact .tell here
    · exact .rest
  | timeOut w =>
    unfold step
    dsimp only
    split
    · rename_i here
      exact .timeOut here
    · exact .rest

/-! ## Offering an outcome -/

theorem offer_of_resolved (h : t.run.isResolved = true) (outcome : Except Error GlobalState) :
    t.offer outcome = t := by
  unfold offer take
  rw [Promise.resolve_of_isResolved h]
  rfl

theorem offer_of_unresolved (h : t.run.outcome? = none) (outcome : Except Error GlobalState) :
    t.offer outcome =
      { t with
        run := { t.run with promise := ⟨some outcome⟩ }, accepted := t.accepted + 1 } := by
  unfold offer take Promise.resolve
  unfold outcome? at h
  rw [h]
  rfl

/-- An offer leaves a run with an outcome, and everything else as it was. -/
theorem offer_spares (t : Tracked) (outcome : Except Error GlobalState) :
    (t.offer outcome).run.isResolved = true ∧ (t.offer outcome).run.isClosed = t.run.isClosed ∧
      (t.offer outcome).closers = t.closers ∧ (t.offer outcome).awaits = t.awaits ∧
      (t.offer outcome).work = t.work :=
  ⟨Promise.isResolved_resolve _ _, rfl, rfl, rfl, rfl⟩

/-! ## Nothing is taken back -/

/-- What is known of a run stays: its outcome, how the work on it ended, that it was stopped, who is
done with closing it, and what someone got who waited. -/
structure Grows (t t' : Tracked) : Prop where
  outcome : ∀ o, t.run.outcome? = some o → t'.run.outcome? = some o
  counted : ∀ o, t.work.counted? = some o → t'.work.counted? = some o
  finished : t.work.isOver = true → t'.work.isOver = true
  isClosed : t.run.isClosed = true → t'.run.isClosed = true
  closers : ∀ c : Nat, t.closers[c]? = some .gone → t'.closers[c]? = some .gone
  awaits : ∀ (w : Nat) r, t.awaits[w]?.bind Await.result? = some r →
    t'.awaits[w]?.bind Await.result? = some r

theorem Grows.refl (t : Tracked) : t.Grows t :=
  ⟨fun _ h => h, fun _ h => h, fun h => h, fun h => h, fun _ h => h, fun _ _ h => h⟩

theorem Grows.trans {t'' : Tracked} (h : t.Grows t') (h' : t'.Grows t'') : t.Grows t'' where
  outcome o ho := h'.outcome o (h.outcome o ho)
  counted o ho := h'.counted o (h.counted o ho)
  finished ho := h'.finished (h.finished ho)
  isClosed hc := h'.isClosed (h.isClosed hc)
  closers c hc := h'.closers c (h.closers c hc)
  awaits w r hr := h'.awaits w r (h.awaits w r hr)

theorem grows_offer (t : Tracked) (outcome : Except Error GlobalState) :
    t.Grows (t.offer outcome) := by
  cases ho : t.run.outcome? with
  | some o =>
    rw [offer_of_resolved (isResolved_iff.2 ⟨o, ho⟩)]
    exact .refl t
  | none =>
    rw [offer_of_unresolved ho]
    refine ⟨fun o h => ?_, fun _ h => h, fun h => h, fun h => h, fun _ h => h, fun _ _ h => h⟩
    rw [ho] at h
    cases h

/-- A caller who is not done yet moves on. -/
theorem grows_setCloser {c : Nat} {old : Closer} (here : t.closers[c]? = some old)
    (hold : old ≠ .gone) (stage : Closer) : t.Grows (t.setCloser c stage) := by
  refine ⟨fun _ h => h, fun _ h => h, fun h => h, fun h => h, fun c' h => ?_, fun _ _ h => h⟩
  have hne : c ≠ c' := by
    rintro rfl
    rw [here] at h
    exact hold (Option.some.inj h)
  show (t.closers.set c stage)[c']? = some .gone
  rwa [List.getElem?_set_ne hne]

/-- Someone who waits moves on. -/
theorem grows_setAwait {w : Nat} {isLimited : Bool}
    (here : t.awaits[w]? = some (.waiting isLimited)) (stage : Await) :
    t.Grows (t.setAwait w stage) := by
  refine ⟨fun _ h => h, fun _ h => h, fun h => h, fun h => h, fun _ h => h, fun w' r h => ?_⟩
  have hne : w ≠ w' := by
    rintro rfl
    rw [here] at h
    cases h
  show (t.awaits.set w stage)[w']?.bind Await.result? = some r
  rwa [List.getElem?_set_ne hne]

theorem getElem?_append_of_some {α : Type} {l more : List α} {i : Nat} {a : α}
    (h : l[i]? = some a) : (l ++ more)[i]? = some a := by
  rw [List.getElem?_append_left (List.getElem?_eq_some_iff.1 h).1, h]

theorem Move.grows (m : Move t t') : t.Grows t' := by
  cases m with
  | rest => exact .refl t
  | count outcome here =>
    refine ⟨fun _ h => h, fun o h => ?_, fun h => ?_, fun h => h, fun _ h => h, fun _ _ h => h⟩
    · rw [here] at h
      cases h
    · rw [here] at h
      cases h
  | @hand outcome here =>
    have hoffer := grows_offer t outcome
    refine ⟨hoffer.outcome, fun o h => ?_, fun _ => rfl, fun h => h, fun _ h => h,
      fun _ _ h => h⟩
    rw [here] at h
    exact h
  | interrupt =>
    exact ⟨fun _ h => h, fun _ h => h, fun h => h, fun _ => rfl, fun _ h => h, fun _ _ h => h⟩
  | close =>
    exact ⟨fun _ h => h, fun _ h => h, fun h => h, fun _ => rfl,
      fun _ h => getElem?_append_of_some h, fun _ _ h => h⟩
  | look here => exact grows_setCloser here (by decide) _
  | giveUp here =>
    have hoffer := grows_offer t (.error .cancelled)
    exact hoffer.trans (grows_setCloser (t := t.offer _) here (by decide) _)
  | await isLimited =>
    refine ⟨fun _ h => h, fun _ h => h, fun h => h, fun h => h, fun _ h => h, fun w r h => ?_⟩
    obtain ⟨a, ha, hr⟩ := Option.bind_eq_some_iff.1 h
    exact Option.bind_eq_some_iff.2 ⟨a, getElem?_append_of_some ha, hr⟩
  | tell here => exact grows_setAwait here _
  | timeOut here => exact grows_setAwait here _

/-! ## What is known of a run -/

/-- What always holds of a run. -/
structure Sound (t : Tracked) : Prop where
  accepted : t.accepted = if t.run.isResolved then 1 else 0
  /-- An outcome is that of the work, or comes from someone who closes the run. -/
  origin : ∀ o, t.run.outcome? = some o → o = .error .cancelled ∨ t.work.counted? = some o
  finished : t.work.isOver = true → t.run.isResolved = true
  stopped : ∀ c ∈ t.closers, t.run.isClosed = true
  gone : .gone ∈ t.closers → t.run.isResolved = true
  told : ∀ r, .told r ∈ t.awaits → ∃ o, t.run.outcome? = some o ∧ r = o.mapError .error

theorem sound_launched (id : UInt64) (root : Digest) (isClosed : Bool) :
    Tracked.Sound { run := { id, root, isClosed } } :=
  ⟨rfl, fun _ h => (nomatch h), fun h => (nomatch h), by simp, by simp, by simp⟩

/-- A run stays sound when it is offered the outcome of the work, or that it was given up. -/
theorem Sound.offer (h : t.Sound)
    (ho : outcome = .error .cancelled ∨ t.work.counted? = some outcome) :
    (t.offer outcome).Sound := by
  cases hr : t.run.outcome? with
  | some o =>
    rw [offer_of_resolved (isResolved_iff.2 ⟨o, hr⟩)]
    exact h
  | none =>
    have haccepted := h.accepted
    rw [if_neg (by rw [isResolved_iff, hr]; simp)] at haccepted
    rw [offer_of_unresolved hr]
    refine ⟨?_, ?_, fun _ => rfl, h.stopped, fun _ => rfl, fun r hin => ?_⟩
    · rw [haccepted]
      rfl
    · rintro o ⟨⟩
      exact ho
    · obtain ⟨o, hno, -⟩ := h.told r hin
      rw [hr] at hno
      cases hno

theorem outcome_of_listen {r : Result GlobalState} {isLimited : Bool}
    (hl : t.listen isLimited = .told r) :
    ∃ o, t.run.outcome? = some o ∧ r = o.mapError .error := by
  unfold Tracked.listen at hl
  split at hl
  · rename_i hr
    obtain ⟨o, ho⟩ := isResolved_iff.1 hr
    cases hl
    exact ⟨o, ho, Promise.await_eq ho isLimited⟩
  · cases hl

theorem Sound.move (m : Move t t') (h : t.Sound) : t'.Sound := by
  cases m with
  | rest => exact h
  | count outcome here =>
    refine ⟨h.accepted, fun o ho => ?_, fun ho => (by cases ho), h.stopped, h.gone, h.told⟩
    obtain hc | hc := h.origin o ho
    · exact .inl hc
    · rw [here] at hc
      cases hc
  | @hand outcome here =>
    have hoffer := h.offer (.inr (here ▸ rfl) : outcome = _ ∨ t.work.counted? = some outcome)
    refine ⟨hoffer.accepted, fun o ho => ?_, fun _ => (t.offer_spares outcome).1, hoffer.stopped,
      hoffer.gone, hoffer.told⟩
    obtain hc | hc := hoffer.origin o ho
    · exact .inl hc
    · rw [(t.offer_spares outcome).2.2.2.2, here] at hc
      exact .inr hc
  | interrupt => exact ⟨h.accepted, h.origin, h.finished, fun _ _ => rfl, h.gone, h.told⟩
  | close =>
    refine ⟨h.accepted, h.origin, h.finished, fun _ _ => rfl, fun hg => ?_, h.told⟩
    obtain hg | hg := List.mem_append.1 hg
    · exact h.gone hg
    · cases List.mem_singleton.1 hg
  | @look c here =>
    refine ⟨h.accepted, h.origin, h.finished, fun _ _ => h.stopped _ (List.mem_of_getElem? here),
      fun hg => ?_, h.told⟩
    obtain hg | hg := List.mem_or_eq_of_mem_set hg
    · exact h.gone hg
    · show t.run.isResolved = true
      by_contra hr
      rw [if_neg hr] at hg
      cases hg
  | @giveUp c here =>
    have hoffer := h.offer (.inl rfl : (.error .cancelled : Except Error GlobalState) = _ ∨ _)
    exact ⟨hoffer.accepted, hoffer.origin, hoffer.finished,
      fun _ _ => h.stopped _ (List.mem_of_getElem? here), fun _ => (t.offer_spares _).1,
      hoffer.told⟩
  | await isLimited =>
    refine ⟨h.accepted, h.origin, h.finished, h.stopped, h.gone, fun r hin => ?_⟩
    obtain hin | hin := List.mem_append.1 hin
    · exact h.told r hin
    · exact outcome_of_listen (List.mem_singleton.1 hin).symm
  | tell here =>
    refine ⟨h.accepted, h.origin, h.finished, h.stopped, h.gone, fun r hin => ?_⟩
    obtain hin | hin := List.mem_or_eq_of_mem_set hin
    · exact h.told r hin
    · exact outcome_of_listen hin.symm
  | timeOut here =>
    refine ⟨h.accepted, h.origin, h.finished, h.stopped, h.gone, fun r hin => ?_⟩
    obtain hin | hin := List.mem_or_eq_of_mem_set hin
    · exact h.told r hin
    · cases hin

/-- Who asks for the outcome of a run that has one gets it at once. -/
theorem listen_of_outcome {o : Except Error GlobalState} (h : t.run.outcome? = some o)
    (isLimited : Bool) : t.listen isLimited = .told (o.mapError .error) := by
  unfold listen
  rw [if_pos (isResolved_iff.2 ⟨o, h⟩), Promise.await_eq h]

theorem step_tell {w : Nat} {isLimited : Bool}
    (hw : t.awaits[w]? = some (.waiting isLimited)) :
    t.step (.tell w) = t.setAwait w (t.listen isLimited) := by
  unfold step
  dsimp only
  rw [hw]

theorem step_timeOut {w : Nat} (hw : t.awaits[w]? = some (.waiting true)) :
    t.step (.timeOut w) = t.setAwait w .timedOut := by
  unfold step
  dsimp only
  rw [hw]

/-- The steps of a caller who closes a run, one right after the other, are its closing. -/
theorem close_at_once (t : Tracked) :
    (((t.step .close).step (.look t.closers.length)).step (.giveUp t.closers.length)).run =
      t.run.close := by
  have hlook : (t.step .close).step (.look t.closers.length) =
      { t with
        run := t.run.cancel
        closers := (t.closers ++ [Closer.stopped]).set t.closers.length
          (if t.run.isResolved then .gone else .givingUp) } := by
    have hhere : (t.step .close).closers[t.closers.length]? = some .stopped :=
      List.getElem?_concat_length
    rw [step.eq_def (t.step .close)]
    dsimp only
    rw [hhere]
    rfl
  have hat : ∀ stage : Closer,
      ((t.closers ++ [Closer.stopped]).set t.closers.length stage)[t.closers.length]? =
        some stage :=
    fun stage => List.getElem?_set_self (by simp)
  rw [hlook, step.eq_def]
  dsimp only
  rw [hat]
  unfold Run.close giveUp
  by_cases hr : t.run.isResolved = true
  · rw [if_pos hr, if_pos (show t.run.cancel.isResolved = true from hr)]
  · rw [if_neg hr, if_neg (show ¬ t.run.cancel.isResolved = true from hr)]
    rfl

/-- The work on a run that ends hands it the outcome. -/
theorem hand_at_once (h : t.work = .underWay) (nanos : UInt64)
    (outcome : Except Error GlobalState) :
    ((t.step (.count nanos outcome)).step .hand).run = (t.run.take outcome).2 := by
  unfold step
  rw [h]
  rfl

end Tracked

/-! ## Counting -/

/-- How the work on a run can end. -/
inductive Ending where
  | succeeded
  | failed
  | cancelled
  deriving DecidableEq

/-- The end that an outcome is. -/
def Ending.of : Except Error GlobalState → Ending
  | .ok _ => .succeeded
  | .error e => if e.isCancelled then .cancelled else .failed

/-- The counter of an end. -/
def Ending.counter (m : Metrics) : Ending → UInt64
  | .succeeded => m.succeeded
  | .failed => m.failed
  | .cancelled => m.cancelled

/-- How the work on a run ended, once it is counted. -/
def Tracked.ending? (t : Tracked) : Option Ending := t.work.counted?.map Ending.of

namespace Ledger

variable {l : Ledger}

theorem counter_recordOutcome (m : Metrics) (nanos : UInt64) (o : Except Error GlobalState)
    (e : Ending) :
    e.counter (m.recordOutcome nanos (error? o)) =
      if Ending.of o = e then e.counter m + 1 else e.counter m := by
  cases o with
  | ok g => cases e <;> rfl
  | error f =>
    unfold Metrics.recordOutcome error? Ending.of
    dsimp only
    by_cases hf : f.isCancelled = true <;> cases e <;> simp [hf, Ending.counter]

theorem launched_recordOutcome (m : Metrics) (nanos : UInt64) (e : Option Error) :
    (m.recordOutcome nanos e).launched = m.launched := by
  unfold Metrics.recordOutcome
  cases e with
  | none => rfl
  | some e => cases h : e.isCancelled <;> simp [h]

/-- The end of the work is counted when it comes, and never again. -/
theorem ending?_step (t : Tracked) (h : Happening) :
    match t.counts? h with
    | some (_, o) => t.ending? = none ∧ (t.step h).ending? = some (Ending.of o)
    | none => (t.step h).ending? = t.ending? := by
  cases h with
  | count nanos outcome =>
    unfold Tracked.counts? Tracked.step Tracked.ending?
    cases hw : t.work <;> simp [hw, Work.counted?]
  | hand =>
    unfold Tracked.counts? Tracked.step Tracked.ending?
    cases hw : t.work <;> simp [hw, Work.counted?]
  | interrupt => rfl
  | close => rfl
  | look c =>
    unfold Tracked.counts? Tracked.step
    dsimp only
    split <;> rfl
  | giveUp c =>
    unfold Tracked.counts? Tracked.step
    dsimp only
    split <;> rfl
  | await isLimited => rfl
  | tell w =>
    unfold Tracked.counts? Tracked.step
    dsimp only
    split <;> rfl
  | timeOut w =>
    unfold Tracked.counts? Tracked.step
    dsimp only
    split <;> rfl

/-- The counters agree with the runs. -/
structure Tallied (l : Ledger) : Prop where
  launched : l.metrics.launched = UInt64.ofNat l.runs.length
  ended : ∀ e : Ending,
    e.counter l.metrics = UInt64.ofNat (l.runs.countP fun t => t.ending? = some e)

/-- How often a property holds after a run changed. -/
theorem countP_set {runs : List Tracked} {i : Nat} {t : Tracked} (h : runs[i]? = some t)
    (p : Tracked → Bool) (t' : Tracked) :
    (runs.set i t').countP p + (if p t then 1 else 0) =
      runs.countP p + (if p t' then 1 else 0) := by
  obtain ⟨hlt, rfl⟩ := List.getElem?_eq_some_iff.1 h
  have hpos : p runs[i] = true → 0 < runs.countP p := fun hp =>
    List.countP_pos_iff.2 ⟨_, List.getElem_mem hlt, hp⟩
  rw [List.countP_set hlt]
  by_cases hp : p runs[i] = true
  · have := hpos hp
    simp only [hp, if_true]
    omega
  · simp only [hp]
    simp

theorem step_on {i : Nat} {t : Tracked} (hi : l.runs[i]? = some t) (h : Happening) :
    l.step (.on i h) = ⟨count l.metrics (t.counts? h), l.runs.set i (t.step h)⟩ := by
  unfold step
  dsimp only
  rw [hi]

theorem step_on_none {i : Nat} (hi : l.runs[i]? = none) (h : Happening) :
    l.step (.on i h) = l := by
  unfold step
  dsimp only
  rw [hi]

theorem launched_count (m : Metrics) (counted : Option (UInt64 × Except Error GlobalState)) :
    (count m counted).launched = m.launched := by
  cases counted with
  | none => rfl
  | some r => exact launched_recordOutcome m r.1 (error? r.2)

/-- An event counts what it changes in a run. -/
theorem ended_step {i : Nat} {t : Tracked} (hi : l.runs[i]? = some t) (h : Happening) (e : Ending)
    (he : e.counter l.metrics = UInt64.ofNat (l.runs.countP fun t => t.ending? = some e)) :
    e.counter (count l.metrics (t.counts? h)) =
      UInt64.ofNat ((l.runs.set i (t.step h)).countP fun t => t.ending? = some e) := by
  have hstep := ending?_step t h
  have hcount := countP_set hi (fun t => t.ending? = some e) (t.step h)
  cases hc : t.counts? h with
  | none =>
    rw [hc] at hstep
    simp only [hstep] at hcount
    rw [Nat.add_right_cancel hcount]
    exact he
  | some counted =>
    obtain ⟨nanos, o⟩ := counted
    rw [hc] at hstep
    obtain ⟨hnone, hsome⟩ := hstep
    simp only [hnone, hsome, reduceCtorEq, decide_false, Bool.false_eq_true, if_false,
      Nat.add_zero, Option.some.injEq, decide_eq_true_eq] at hcount
    rw [hcount]
    show e.counter (l.metrics.recordOutcome nanos (error? o)) = _
    rw [counter_recordOutcome, he]
    split
    · rw [UInt64.ofNat_add]
      rfl
    · rfl

theorem Tallied.step (h : l.Tallied) (event : Event) : (l.step event).Tallied := by
  cases event with
  | launch id root isClosed =>
    refine ⟨?_, fun e => ?_⟩
    · show l.metrics.launched + 1 = UInt64.ofNat (l.runs ++ [_]).length
      rw [h.launched, List.length_append, List.length_singleton, UInt64.ofNat_add]
      rfl
    · show e.counter l.metrics = UInt64.ofNat ((l.runs ++ [_]).countP _)
      rw [h.ended e, List.countP_append]
      rfl
  | on i happening =>
    cases hi : l.runs[i]? with
    | none =>
      rw [step_on_none hi]
      exact h
    | some t =>
      rw [step_on hi]
      refine ⟨?_, fun e => ended_step hi happening e (h.ended e)⟩
      rw [launched_count, h.launched, List.length_set]

/-- The three ends make up all runs whose end was counted. -/
theorem countP_endings (runs : List Tracked) :
    (runs.countP fun t => t.ending? = some .succeeded) +
        (runs.countP fun t => t.ending? = some .failed) +
        (runs.countP fun t => t.ending? = some .cancelled) =
      runs.countP fun t => t.ending?.isSome := by
  induction runs with
  | nil => rfl
  | cons t rest ih =>
    simp only [List.countP_cons, ← ih]
    obtain h | h | h | h : t.ending? = none ∨ t.ending? = some .succeeded ∨
        t.ending? = some .failed ∨ t.ending? = some .cancelled := by
      cases t.ending? with
      | none => simp
      | some e => cases e <;> simp
    all_goals simp [h] <;> omega

theorem Tallied.steps (h : l.Tallied) (events : List Event) : (l.steps events).Tallied := by
  induction events generalizing l with
  | nil => exact h
  | cons event rest ih => exact ih (h.step event)

theorem tallied_new : Tallied {} := ⟨rfl, fun e => by cases e <;> rfl⟩

/-- The three counters together count every end once. -/
theorem Tallied.total (h : l.Tallied) :
    l.metrics.succeeded + l.metrics.failed + l.metrics.cancelled =
      UInt64.ofNat (l.runs.countP fun t => t.ending?.isSome) := by
  rw [← countP_endings, UInt64.ofNat_add, UInt64.ofNat_add, ← h.ended .succeeded,
    ← h.ended .failed, ← h.ended .cancelled]
  rfl

theorem Tallied.toNat_counter (h : l.Tallied) (hlt : l.runs.length < UInt64.size) (e : Ending) :
    (e.counter l.metrics).toNat = l.runs.countP fun t => t.ending? = some e := by
  rw [h.ended, UInt64.toNat_ofNat_of_lt' (Nat.lt_of_le_of_lt List.countP_le_length hlt)]

/-- As long as no counter wraps around, no more ends are counted than launches. -/
theorem Tallied.bounded (h : l.Tallied) (hlt : l.runs.length < UInt64.size) :
    l.metrics.succeeded.toNat + l.metrics.failed.toNat + l.metrics.cancelled.toNat =
        (l.runs.countP fun t => t.ending?.isSome) ∧
      l.metrics.succeeded.toNat + l.metrics.failed.toNat + l.metrics.cancelled.toNat ≤
        l.metrics.launched.toNat := by
  have hsum : l.metrics.succeeded.toNat + l.metrics.failed.toNat + l.metrics.cancelled.toNat =
      l.runs.countP fun t => t.ending?.isSome := by
    rw [← countP_endings, ← h.toNat_counter hlt .succeeded, ← h.toNat_counter hlt .failed,
      ← h.toNat_counter hlt .cancelled]
    rfl
  refine ⟨hsum, ?_⟩
  rw [hsum, h.launched, UInt64.toNat_ofNat_of_lt' hlt]
  exact List.countP_le_length

/-! ## What happens to the runs -/

/-- Every run is still there after an event, and nothing known of it is taken back. -/
theorem runs_step {i : Nat} {t : Tracked} (hi : l.runs[i]? = some t) (event : Event) :
    ∃ t', (l.step event).runs[i]? = some t' ∧ t.Grows t' := by
  cases event with
  | launch id root isClosed => exact ⟨t, Tracked.getElem?_append_of_some hi, .refl t⟩
  | on j h =>
    cases hj : l.runs[j]? with
    | none =>
      rw [step_on_none hj]
      exact ⟨t, hi, .refl t⟩
    | some u =>
      rw [step_on hj]
      by_cases hij : j = i
      · subst hij
        rw [hi] at hj
        cases hj
        exact ⟨t.step h, List.getElem?_set_self (List.getElem?_eq_some_iff.1 hi).1,
          (t.step_move h).grows⟩
      · exact ⟨t, (List.getElem?_set_ne hij).trans hi, .refl t⟩

theorem runs_steps {i : Nat} {t : Tracked} (hi : l.runs[i]? = some t) (events : List Event) :
    ∃ t', (l.steps events).runs[i]? = some t' ∧ t.Grows t' := by
  induction events generalizing l t with
  | nil => exact ⟨t, hi, .refl t⟩
  | cons event rest ih =>
    obtain ⟨t₁, h₁, hgrows⟩ := runs_step hi event
    obtain ⟨t₂, h₂, hgrows'⟩ := ih h₁
    exact ⟨t₂, h₂, hgrows.trans hgrows'⟩

theorem sound_step (h : ∀ t ∈ l.runs, t.Sound) (event : Event) :
    ∀ t ∈ (l.step event).runs, t.Sound := by
  cases event with
  | launch id root isClosed =>
    intro t ht
    obtain ht | ht := List.mem_append.1 ht
    · exact h t ht
    · cases List.mem_singleton.1 ht
      exact Tracked.sound_launched id root isClosed
  | on i happening =>
    cases hi : l.runs[i]? with
    | none =>
      rw [step_on_none hi]
      exact h
    | some u =>
      rw [step_on hi]
      intro t ht
      obtain ht | rfl := List.mem_or_eq_of_mem_set ht
      · exact h t ht
      · exact (h u (List.mem_of_getElem? hi)).move (u.step_move happening)

theorem sound_steps (h : ∀ t ∈ l.runs, t.Sound) (events : List Event) :
    ∀ t ∈ (l.steps events).runs, t.Sound := by
  induction events generalizing l with
  | nil => exact h
  | cons event rest ih => exact ih (sound_step h event)

/-- Whether an event launches a run. -/
def Event.isLaunch : Event → Bool
  | .launch .. => true
  | .on .. => false

theorem length_steps (l : Ledger) (events : List Event) :
    (l.steps events).runs.length = l.runs.length + events.countP Event.isLaunch := by
  induction events generalizing l with
  | nil => rfl
  | cons event rest ih =>
    show ((l.step event).steps rest).runs.length = _
    rw [ih, List.countP_cons]
    cases event with
    | launch id root isClosed =>
      show (l.runs ++ [_]).length + _ = _
      rw [List.length_append]
      simp [Event.isLaunch]
      omega
    | on i h =>
      have hlength : (l.step (.on i h)).runs.length = l.runs.length := by
        cases hi : l.runs[i]? with
        | none => rw [step_on_none hi]
        | some t => rw [step_on hi, List.length_set]
      rw [hlength]
      rfl

/-! ## What everyone can rely on -/

/-- What a ledger owes to everyone, after what happened so far. -/
structure Delivers (history : List Event) (l : Ledger) : Prop where
  /-- No outcome is accepted for a run but one, and that is the outcome it has. -/
  accepted : ∀ t ∈ l.runs, t.accepted = if t.run.isResolved then 1 else 0
  /-- A run has its outcome when the work on it is over, and when someone has closed it, which stops
  the work, too. -/
  finished : ∀ t ∈ l.runs, t.work.isOver = true → t.run.isResolved = true ∧ t.accepted = 1
  closed : ∀ t ∈ l.runs, .gone ∈ t.closers →
    t.run.isResolved = true ∧ t.accepted = 1 ∧ t.run.isClosed = true
  /-- The outcome is the one that was counted, unless someone gave the run up before. -/
  origin : ∀ t ∈ l.runs, ∀ o, t.run.outcome? = some o →
    o = .error .cancelled ∨ t.work.counted? = some o
  /-- Whatever is known of a run stays that way, its outcome first of all. -/
  keeps : ∀ (i : Nat) t, l.runs[i]? = some t → ∀ later,
    ∃ t', (l.steps later).runs[i]? = some t' ∧ t.Grows t'
  /-- Who waited got the outcome, or the refusal when the patience ended. -/
  told : ∀ t ∈ l.runs, ∀ a ∈ t.awaits, ∀ r, a.result? = some r →
    (∃ o, t.run.outcome? = some o ∧ r = o.mapError .error) ∨ a = .timedOut ∧ r = fail .cancelled
  /-- Who asks for an outcome that is there gets it, and so does who waited for it. -/
  asked : ∀ (i : Nat) t o, l.runs[i]? = some t → t.run.outcome? = some o →
    (∀ isLimited, ∃ t', (l.step (.on i (.await isLimited))).runs[i]? = some t' ∧
      t'.awaits[t.awaits.length]? = some (.told (o.mapError .error))) ∧
    ∀ (w : Nat) isLimited, t.awaits[w]? = some (.waiting isLimited) →
      ∃ t', (l.step (.on i (.tell w))).runs[i]? = some t' ∧
        t'.awaits[w]? = some (.told (o.mapError .error))
  /-- When a patience ends, nothing else changes. -/
  timedOut : ∀ (i : Nat) t (w : Nat), l.runs[i]? = some t → t.awaits[w]? = some (.waiting true) →
    ∃ t', l.step (.on i (.timeOut w)) = { l with runs := l.runs.set i t' } ∧
      t'.awaits[w]?.bind Await.result? = some (fail .cancelled) ∧
      t' = { t with awaits := t'.awaits }
  /-- As many runs as were launched. -/
  launched : l.runs.length = history.countP Event.isLaunch ∧
    l.metrics.launched = UInt64.ofNat l.runs.length
  /-- How the work on each run ended is counted once, as soon as it ends. -/
  ended : ∀ e : Ending,
    e.counter l.metrics = UInt64.ofNat (l.runs.countP fun t => t.ending? = some e)
  total : l.metrics.succeeded + l.metrics.failed + l.metrics.cancelled =
    UInt64.ofNat (l.runs.countP fun t => t.ending?.isSome)
  /-- Unless the work on some run is just handing over its outcome, these are the runs whose work is
  over. -/
  settled : (∀ t ∈ l.runs, ∀ o, t.work ≠ .counted o) →
    (l.runs.countP fun t => t.ending?.isSome) = l.runs.countP fun t => t.work.isOver
  /-- As long as the counters do not wrap around, no more ends are counted than launches. -/
  bounded : l.runs.length < UInt64.size →
    l.metrics.succeeded.toNat + l.metrics.failed.toNat + l.metrics.cancelled.toNat =
        (l.runs.countP fun t => t.ending?.isSome) ∧
      l.metrics.succeeded.toNat + l.metrics.failed.toNat + l.metrics.cancelled.toNat ≤
        l.metrics.launched.toNat

/-- Whatever happens to any number of runs in whatever order: each run takes one outcome, which
stays and is what everyone is told who waited long enough, closing leaves no run without one, and
the end of the work on each run is counted once, in the counter of its kind. -/
theorem delivered_once (history : List Event) :
    Delivers history (({} : Ledger).steps history) := by
  have hsound := sound_steps (l := {}) (by simp) history
  have htallied := tallied_new.steps history
  constructor
  case accepted => exact fun t ht => (hsound t ht).accepted
  case finished =>
    intro t ht ho
    have hresolved := (hsound t ht).finished ho
    exact ⟨hresolved, (hsound t ht).accepted.trans (if_pos hresolved)⟩
  case closed =>
    intro t ht hg
    have hresolved := (hsound t ht).gone hg
    exact ⟨hresolved, (hsound t ht).accepted.trans (if_pos hresolved), (hsound t ht).stopped _ hg⟩
  case origin => exact fun t ht => (hsound t ht).origin
  case keeps => exact fun i t hi => runs_steps hi
  case told =>
    intro t ht a ha r hr
    cases a with
    | waiting isLimited => cases hr
    | told r' =>
      cases hr
      exact .inl ((hsound t ht).told r ha)
    | timedOut =>
      cases hr
      exact .inr ⟨rfl, rfl⟩
  case asked =>
    intro i t o hi ho
    have hlt := (List.getElem?_eq_some_iff.1 hi).1
    refine ⟨fun isLimited => ?_, fun w isLimited hw => ?_⟩
    · rw [step_on hi]
      refine ⟨_, List.getElem?_set_self hlt, ?_⟩
      rw [← Tracked.listen_of_outcome ho isLimited]
      exact List.getElem?_concat_length
    · rw [step_on hi]
      refine ⟨_, List.getElem?_set_self hlt, ?_⟩
      rw [Tracked.step_tell hw, Tracked.listen_of_outcome ho]
      exact List.getElem?_set_self (List.getElem?_eq_some_iff.1 hw).1
  case timedOut =>
    intro i t w hi hw
    rw [step_on hi, Tracked.step_timeOut hw]
    refine ⟨_, rfl, ?_, rfl⟩
    exact congrArg (Option.bind · Await.result?)
      (List.getElem?_set_self (List.getElem?_eq_some_iff.1 hw).1)
  case launched =>
    refine ⟨?_, htallied.launched⟩
    rw [length_steps]
    exact Nat.zero_add _
  case ended => exact htallied.ended
  case total => exact htallied.total
  case settled =>
    intro hnone
    refine List.countP_congr fun t ht => ?_
    unfold Tracked.ending?
    cases hw : t.work with
    | counted o => exact absurd hw (hnone t ht o)
    | _ => simp [Work.counted?, Work.isOver]
  case bounded => exact htallied.bounded

/-- A run is closed between the count of its success and the handing over: the success is counted,
and everyone is told that the run was given up. -/
example :
    let l := ({} : Ledger).steps [.launch 1 .zero false, .on 0 (.await false),
      .on 0 (.count 5 (.ok default)), .on 0 .close, .on 0 (.look 0), .on 0 (.giveUp 0),
      .on 0 .hand, .on 0 (.tell 0)]
    l.metrics.succeeded = 1 ∧ l.metrics.cancelled = 0 ∧
      l.runs.map (fun t => (t.accepted, t.run.isResolved, t.run.isClosed)) = [(1, true, true)] ∧
      l.runs.map (·.awaits.map Await.result?) = [[some (fail .cancelled)]] := by
  refine ⟨?_, ?_, ?_, ?_⟩ <;> rfl

end Ledger

end Run

end Rerun
