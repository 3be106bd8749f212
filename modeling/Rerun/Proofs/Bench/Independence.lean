import Rerun.Proofs.Bench.Frame
import Rerun.Proofs.Handle.Twin

/-!
# Handles live apart

Handles at one bench share the files and the resolvers, and a copy shares the family of its source.
Still, a handle answers among others as if it were alone (`Beside.answers`). One that is frozen
holds still until its machine is released (`holdsStill`), and one whose machine is released refuses
everything for good (`isOver`). All of it together is `handles_live_apart`.
-/

namespace Rerun.Bench

open Handle (Balanced Moves Twins Alike DoneAlike mask leave)

variable (backend : Backend) (horizon : Nat)

/-! ## Benches with the builtin engine -/

/-- A bench with handles of the builtin engine, whose registry and handles are in step. -/
structure Fit (b : Bench) : Prop where
  balanced : Balanced b.host.registry b.everyHandle
  /-- Under zero nothing is found. -/
  zero : b.host.registry.found? 0 = none
  builtin : ∀ h ∈ b.handles, h.machine = none ∨ ∃ m, h.machine = some (.plain m)

section

variable {b : Bench} {h : Handle}

theorem mem_everyHandle (hh : h ∈ b.handles) : h ∈ b.everyHandle :=
  List.mem_append_left _ hh

/-- Under the token of a family something is found. -/
theorem Fit.found (hfit : b.Fit) (hh : h ∈ b.handles) {t : Nat} (ht : h.family = some t) :
    b.host.registry.found? t ≠ none :=
  hfit.balanced.found?_ne_none (mem_everyHandle hh) ht

theorem Fit.drawn (hfit : b.Fit) (hh : h ∈ b.handles) {t : Nat} (ht : h.family = some t) :
    t ≤ b.host.registry.lastToken :=
  Registry.le_lastToken_of_found? (hfit.found hh ht)

/-- A handle is its own twin. -/
theorem Fit.twins (hfit : b.Fit) (hh : h ∈ b.handles) (last : Nat) :
    Twins last b.host.registry b.host.registry h h := by
  obtain ⟨machine, isFrozen, family⟩ := h
  have hsound := hfit.balanced.sound _ (mem_everyHandle hh)
  obtain hm | ⟨m, hm⟩ := hfit.builtin _ hh
  · obtain rfl : machine = none := hm
    obtain rfl : family = none := hsound.family_of_gone rfl
    exact .gone isFrozen
  · obtain rfl : machine = some (.plain m) := hm
    have hcontext : m.context = family.getD 0 := hsound.context_eq _ rfl
    have hself : m.withToken (family.getD 0) = m := by
      rw [← hcontext]
      rfl
    have htwins : Twins last b.host.registry b.host.registry (.plain m isFrozen family)
        (.plain (m.withToken (family.getD 0)) isFrozen family) :=
      .live isFrozen hcontext rfl rfl (fun _ => hfit.drawn hh) fun _ => hfit.drawn hh
    rw [hself] at htwins
    exact htwins

/-- Whoever is at the bench before and after something was done finds what was found before. -/
theorem Fit.found_kept {b' : Bench} {log : List Nat} (hfit : b.Fit) (hfit' : b'.Fit)
    (hmoves : Moves b.host.registry b.everyHandle log b'.host.registry b'.everyHandle)
    (hh : h ∈ b.handles) (hh' : h ∈ b'.handles) :
    b'.host.registry.found? (h.family.getD 0) = b.host.registry.found? (h.family.getD 0) := by
  cases hf : h.family with
  | none =>
    show b'.host.registry.found? 0 = b.host.registry.found? 0
    rw [hfit.zero, hfit'.zero]
  | some t =>
    obtain hnone | hsame := hmoves.found? (hfit.drawn hh hf)
    · exact absurd hnone (hfit'.found hh' hf)
    · exact hsame

theorem add_builtin {h' : Handle} (hb : ∀ h ∈ b.handles, h.machine = none ∨
    ∃ m, h.machine = some (.plain m)) (hm : ∃ m, h'.machine = some (.plain m)) :
    ∀ h ∈ (b.add h').2.handles, h.machine = none ∨ ∃ m, h.machine = some (.plain m) := by
  intro h hh
  obtain hh | hh := List.mem_append.1 hh
  · exact hb h hh
  · rw [List.mem_singleton.1 hh]
    exact .inr hm

theorem set_builtin {k : Nat} {h' : Handle} (hb : ∀ h ∈ b.handles, h.machine = none ∨
    ∃ m, h.machine = some (.plain m))
    (hm : h'.machine = none ∨ ∃ m, h'.machine = some (.plain m)) :
    ∀ h ∈ b.handles.set k h', h.machine = none ∨ ∃ m, h.machine = some (.plain m) := by
  intro h hh
  obtain hh | rfl := List.mem_or_eq_of_mem_set hh
  · exact hb h hh
  · exact hm

theorem Fit.perform_builtin {backend : Backend} (hb : backend.IsReference) (hfit : b.Fit)
    (op : Op) : ∀ h ∈ (b.perform backend horizon op).2.handles,
      h.machine = none ∨ ∃ m, h.machine = some (.plain m) := by
  cases op with
  | load path =>
    unfold perform
    dsimp only
    rw [Backend.load_reference hb]
    cases Program.load b.host.files path with
    | error e => exact hfit.builtin
    | ok p => exact add_builtin hfit.builtin ⟨_, rfl⟩
  | copy n =>
    cases hn : b.handles[n]? with
    | none =>
      rw [perform_absent backend horizon (.copy n) (beq_self_eq_true n) hn]
      exact hfit.builtin
    | some h =>
      cases hc : h.copy b.host with
      | error f =>
        rw [perform_copy_error backend horizon hn hc]
        exact hfit.builtin
      | ok r =>
        obtain ⟨h', host⟩ := r
        rw [perform_copy backend horizon hn hc]
        refine add_builtin hfit.builtin ?_
        obtain ⟨i, hi, hcopied⟩ := Handle.copy_eq_ok hc
        obtain ⟨m, rfl⟩ : ∃ m, i = .plain m := by
          obtain hm | ⟨m, hm⟩ := hfit.builtin h (List.mem_of_getElem? hn)
          · rw [hm] at hi
            cases hi
          · rw [hm] at hi
            exact ⟨m, (Option.some.inj hi).symm⟩
        obtain ⟨-, rfl, -⟩ | ⟨t, -, rfl, -⟩ := hcopied
        · exact ⟨m, rfl⟩
        · exact ⟨m.withToken t, rfl⟩
  | on n o =>
    cases hn : b.handles[n]? with
    | none =>
      rw [perform_absent backend horizon (.on n o) (beq_self_eq_true n) hn]
      exact hfit.builtin
    | some h =>
      rw [perform_on backend horizon hn]
      have htwins := hfit.twins (List.mem_of_getElem? hn) b.host.registry.lastToken
      have hworlds : Alike b.host.registry.lastToken (fun _ => True) b.host b.host :=
        ⟨.refl _ _, Nat.le_refl _, Nat.le_refl _⟩
      have hdone : DoneAlike _ _ (h.perform horizon b.host o) (h.perform horizon b.host o) :=
        htwins.perform hworlds horizon fun _ _ _ _ => trivial
      exact set_builtin hfit.builtin hdone.twins.builtin
  | drop n =>
    cases hn : b.handles[n]? with
    | none =>
      rw [perform_absent backend horizon (.drop n) (beq_self_eq_true n) hn]
      exact hfit.builtin
    | some h =>
      rw [perform_drop backend horizon hn]
      exact set_builtin hfit.builtin (.inl rfl)
  | run n x d way =>
    unfold perform onHandle
    dsimp only
    split <;> exact hfit.builtin
  | openSession n root x stepChunk =>
    unfold perform onHandle
    dsimp only
    split
    · exact hfit.builtin
    · dsimp only [openSession]
      split
      · exact hfit.builtin
      · split <;> exact hfit.builtin
  | ask n d question =>
    unfold perform onSession
    dsimp only
    split <;> exact hfit.builtin
  | closeSession n =>
    unfold perform onSession
    dsimp only
    split <;> exact hfit.builtin

theorem Fit.perform {backend : Backend} (hb : backend.IsReference) (hfit : b.Fit) (op : Op) :
    (b.perform backend horizon op).2.Fit := by
  obtain ⟨log, hmoves, -⟩ := perform_moves backend horizon b op
  refine ⟨hmoves.balanced hfit.balanced, ?_, hfit.perform_builtin horizon hb op⟩
  obtain hnone | hsame := hmoves.found? (Nat.zero_le _)
  · exact hnone
  · rw [hsame, hfit.zero]

theorem Fit.performAll {backend : Backend} (hb : backend.IsReference) (hfit : b.Fit)
    (ops : List Op) : (b.performAll backend horizon ops).Fit := by
  induction ops generalizing b with
  | nil => exact hfit
  | cons op ops ih => exact ih (hfit.perform horizon hb op)

/-- So is one where nothing was done yet. -/
theorem fit_of_none {host : Host} (hnone : host.registry.entries = []) :
    (⟨host, [], []⟩ : Bench).Fit := by
  have hentry : ∀ t, host.registry.entry? t = none := by
    intro t
    unfold Registry.entry?
    rw [hnone]
    rfl
  refine ⟨⟨fun t => ?_, by simp [everyHandle]⟩, ?_, by simp⟩
  · rw [hentry]
    rfl
  · unfold Registry.found?
    rw [hentry]
    rfl

end

/-! ## A handle alone and among others -/

/-- An answer in which tokens that were drawn later, and the numbers of new handles, look alike. -/
def Reply.masked (last : Nat) : Reply → Reply
  | .created _ => .created 0
  | .handle r => .handle (r.masked last)
  | r => r

/-- The end of an operation, masked in the same way. -/
def maskedReply (last : Nat) (r : Result Reply) : Result Reply :=
  (Result.retoken (mask last) r).map (Reply.masked last)

theorem maskedReply_handle (last : Nat) (r : Result Handle.Reply) :
    maskedReply last (r.map .handle) = (Handle.maskedReply last r).map .handle := by
  cases r <;> rfl

/-- What the operations on a handle answer, in order, while others are done in between. -/
def answers (k : Nat) : Bench → List Op → List (Result Reply)
  | _, [] => []
  | b, op :: ops =>
    let (reply, b) := b.perform backend horizon op
    if op.isOf k then reply :: answers k b ops else answers k b ops

/-- A handle is alike at two benches, and so are the files at some places. -/
structure Beside (last k : Nat) (at_ : List String → Prop) (b b' : Bench) : Prop where
  fit : b.Fit
  worlds : Alike last at_ b.host b'.host
  twins : ∃ h h', b.handles[k]? = some h ∧ b'.handles[k]? = some h' ∧
    Twins last b.host.registry b'.host.registry h h'

section

variable {backend : Backend} (hb : backend.IsReference) {last k : Nat} {at_ : List String → Prop}
  {b b' : Bench}

include hb

/-- What is done with others makes no difference. -/
theorem Beside.other (hs : Beside last k at_ b b') {op : Op} (ho : op.isOf k = false)
    (hout : ∀ path, op.output = some path → ¬ at_ (Path.target b.host.files.current path)) :
    Beside last k at_ (b.perform backend horizon op).2 b' := by
  obtain ⟨log, hmoves, -⟩ := perform_moves backend horizon b op
  have hfit := hs.fit.perform horizon hb op
  have hlast : b.host.registry.lastToken ≤
      (b.perform backend horizon op).2.host.registry.lastToken := by
    rw [hmoves.log_eq.1]
    exact Nat.le_add_right _ _
  refine ⟨hfit, ⟨?_, hs.worlds.drawn.trans hlast, hs.worlds.drawn'⟩, ?_⟩
  · obtain hsame | ⟨path, content, hpath, hw⟩ := perform_files backend horizon b op
    · rw [hsame]
      exact hs.worlds.files
    · exact hs.worlds.files.write_elsewhere hw (hout path hpath)
  · obtain ⟨h, h', hn, hn', ht⟩ := hs.twins
    obtain ⟨hk, -⟩ := List.getElem?_eq_some_iff.1 hn
    have hon : ∀ o, op ≠ .on k o := by
      rintro o rfl
      rw [Op.isOf, beq_self_eq_true] at ho
      cases ho
    have hdrop : op ≠ .drop k := by
      rintro rfl
      rw [Op.isOf, beq_self_eq_true] at ho
      cases ho
    have hstays := perform_others backend horizon hk hon hdrop
    refine ⟨h, h', hstays.trans hn, hn', ht.carried ?_ rfl hlast (Nat.le_refl _)⟩
    exact hs.fit.found_kept hfit hmoves (List.mem_of_getElem? hn)
      (List.mem_of_getElem? (hstays.trans hn))

/-- A call of the handle is answered alike. -/
theorem Beside.on (hs : Beside last k at_ b b') {op : Handle.Op}
    (hpaths : ∀ path ∈ op.paths, ∀ ns ∈ Path.way b.host.files.current path, at_ ns) :
    maskedReply last (b.perform backend horizon (.on k op)).1 =
        maskedReply last (b'.perform backend horizon (.on k op)).1 ∧
      Beside last k at_ (b.perform backend horizon (.on k op)).2
        (b'.perform backend horizon (.on k op)).2 := by
  have hfit := hs.fit.perform horizon hb (.on k op)
  obtain ⟨h, h', hn, hn', ht⟩ := hs.twins
  obtain ⟨hk, -⟩ := List.getElem?_eq_some_iff.1 hn
  obtain ⟨hk', -⟩ := List.getElem?_eq_some_iff.1 hn'
  have hdone := ht.perform hs.worlds horizon hpaths
  rw [perform_on backend horizon hn] at hfit ⊢
  rw [perform_on backend horizon hn', maskedReply_handle, maskedReply_handle]
  refine ⟨congrArg (Except.map Reply.handle) hdone.reply.symm, hfit, hdone.worlds, ?_⟩
  exact ⟨_, _, List.getElem?_set_self hk, List.getElem?_set_self hk', hdone.twins⟩

/-- So is a wish for a copy. -/
theorem Beside.copy (hs : Beside last k at_ b b') :
    maskedReply last (b.perform backend horizon (.copy k)).1 =
        maskedReply last (b'.perform backend horizon (.copy k)).1 ∧
      Beside last k at_ (b.perform backend horizon (.copy k)).2
        (b'.perform backend horizon (.copy k)).2 := by
  have hfit := hs.fit.perform horizon hb (.copy k)
  obtain ⟨h, h', hn, hn', ht⟩ := hs.twins
  obtain ⟨hk, -⟩ := List.getElem?_eq_some_iff.1 hn
  obtain ⟨hk', -⟩ := List.getElem?_eq_some_iff.1 hn'
  cases ht with
  | gone isFrozen =>
    rw [perform_copy_error backend horizon hn rfl, perform_copy_error backend horizon hn' rfl]
    exact ⟨rfl, hs⟩
  | @live m family family' isFrozen context found alike drawn drawn' =>
    have hlive := Twins.live isFrozen context found alike drawn drawn'
    cases family with
    | none =>
      obtain rfl : family' = none := Option.map_eq_none_iff.1 alike
      rw [perform_copy backend horizon hn (Handle.copy_plain _ m isFrozen)] at hfit ⊢
      rw [perform_copy backend horizon hn' (Handle.copy_plain _ _ isFrozen)]
      exact ⟨rfl, hfit, hs.worlds, _, _, (add_handles _ _ hk).trans hn,
        (add_handles _ _ hk').trans hn', hlive⟩
    | some t =>
      obtain ⟨t', rfl, -⟩ := Option.map_eq_some_iff.1 alike
      rw [perform_copy backend horizon hn (Handle.copy_plain_some _ m isFrozen t)] at hfit ⊢
      rw [perform_copy backend horizon hn' (Handle.copy_plain_some _ _ isFrozen t')]
      have hlast : ∀ (r : Registry) (t : Nat), r.lastToken ≤ (r.retain t).lastToken := by
        intro r t
        rw [Registry.retain_lastToken]
      refine ⟨rfl, hfit, ⟨hs.worlds.files, hs.worlds.drawn.trans (hlast _ t),
        hs.worlds.drawn'.trans (hlast _ t')⟩, _, _, (add_handles _ _ hk).trans hn,
        (add_handles _ _ hk').trans hn', ?_⟩
      exact hlive.carried (Registry.found?_retain _ _ _) (Registry.found?_retain _ _ _)
        (hlast _ t) (hlast _ t')

/-- And the end of the handle. -/
theorem Beside.drop (hs : Beside last k at_ b b') :
    maskedReply last (b.perform backend horizon (.drop k)).1 =
        maskedReply last (b'.perform backend horizon (.drop k)).1 ∧
      Beside last k at_ (b.perform backend horizon (.drop k)).2
        (b'.perform backend horizon (.drop k)).2 := by
  have hfit := hs.fit.perform horizon hb (.drop k)
  obtain ⟨h, h', hn, hn', ht⟩ := hs.twins
  obtain ⟨hk, -⟩ := List.getElem?_eq_some_iff.1 hn
  obtain ⟨hk', -⟩ := List.getElem?_eq_some_iff.1 hn'
  have hfrozen : h'.isFrozen = h.isFrozen := by
    cases ht <;> rfl
  rw [perform_drop backend horizon hn] at hfit ⊢
  rw [perform_drop backend horizon hn']
  refine ⟨rfl, hfit, ⟨hs.worlds.files, ?_, ?_⟩, _, _, List.getElem?_set_self hk,
    List.getElem?_set_self hk', ?_⟩
  · show last ≤ (leave b.host.registry h.family).lastToken
    rw [Handle.leave_lastToken]
    exact hs.worlds.drawn
  · show last ≤ (leave b'.host.registry h'.family).lastToken
    rw [Handle.leave_lastToken]
    exact hs.worlds.drawn'
  · show Twins last _ _ ⟨none, h.isFrozen, none⟩ ⟨none, h'.isFrozen, none⟩
    rw [hfrozen]
    exact .gone h.isFrozen

theorem Beside.own (hs : Beside last k at_ b b') {op : Op} (ho : op.isOf k = true)
    (hpaths : ∀ path ∈ op.paths, ∀ ns ∈ Path.way b.host.files.current path, at_ ns) :
    maskedReply last (b.perform backend horizon op).1 =
        maskedReply last (b'.perform backend horizon op).1 ∧
      Beside last k at_ (b.perform backend horizon op).2 (b'.perform backend horizon op).2 := by
  cases op with
  | on n o =>
    obtain rfl : n = k := beq_iff_eq.1 ho
    exact hs.on horizon hb hpaths
  | copy n =>
    obtain rfl : n = k := beq_iff_eq.1 ho
    exact hs.copy horizon hb
  | drop n =>
    obtain rfl : n = k := beq_iff_eq.1 ho
    exact hs.drop horizon hb
  | _ => cases ho

/-- Whatever is done with others in between, a handle answers as if it were alone. -/
theorem Beside.answers (hs : Beside last k at_ b b') {ops : List Op}
    (hout : ∀ op ∈ ops, op.isOf k = false → ∀ path, op.output = some path →
      ¬ at_ (Path.target b.host.files.current path))
    (hpaths : ∀ op ∈ ops, op.isOf k = true → ∀ path ∈ op.paths,
      ∀ ns ∈ Path.way b.host.files.current path, at_ ns) :
    (answers backend horizon k b ops).map (maskedReply last) =
      (answers backend horizon k b' (ops.filter (Op.isOf k))).map (maskedReply last) := by
  induction ops generalizing b b' with
  | nil => rfl
  | cons op ops ih =>
    have hcurrent := perform_current backend horizon b op
    have hout' : ∀ o ∈ ops, o.isOf k = false → ∀ path, o.output = some path →
        ¬ at_ (Path.target (b.perform backend horizon op).2.host.files.current path) := by
      rw [hcurrent]
      exact fun o ho => hout o (.tail _ ho)
    have hpaths' : ∀ o ∈ ops, o.isOf k = true → ∀ path ∈ o.paths,
        ∀ ns ∈ Path.way (b.perform backend horizon op).2.host.files.current path, at_ ns := by
      rw [hcurrent]
      exact fun o ho => hpaths o (.tail _ ho)
    cases ho : op.isOf k with
    | true =>
      obtain ⟨hreply, hrest⟩ := hs.own horizon hb ho (hpaths op (.head _) ho)
      rw [List.filter_cons_of_pos ho, Bench.answers, Bench.answers]
      simp only [ho, if_true, List.map_cons]
      rw [hreply, ih hrest hout' hpaths']
    | false =>
      have hrest := hs.other horizon hb ho (hout op (.head _) ho)
      rw [List.filter_cons_of_neg (by simp [ho]), Bench.answers]
      simp only [ho]
      exact ih hrest hout' hpaths'

end

/-! ## The life of a handle -/

section

variable {b : Bench} {h : Handle} {k : Nat}

/-- Who is told that a handle is frozen now can rely on it. -/
theorem freeze_answered
    (hr : (b.perform backend horizon (.on k .freeze)).1 = .ok (.handle .done)) :
    ∃ h i, b.handles[k]? = some h ∧ h.machine = some i ∧
      (b.perform backend horizon (.on k .freeze)).2.handles[k]? =
        some { h with isFrozen := true } := by
  cases hn : b.handles[k]? with
  | none =>
    unfold perform onHandle at hr
    dsimp only at hr
    rw [hn] at hr
    cases hr
  | some h =>
    obtain ⟨hk, -⟩ := List.getElem?_eq_some_iff.1 hn
    rw [perform_on backend horizon hn] at hr ⊢
    cases hm : h.machine with
    | none =>
      rw [Handle.perform_destroyed hm horizon b.host rfl] at hr
      cases hr
    | some i =>
      refine ⟨h, i, rfl, hm, ?_⟩
      have hdone : (h.perform horizon b.host .freeze).handle = { h with isFrozen := true } := by
        show (h.changing b.host (Instance.lift h.freeze)).handle = _
        rw [Handle.freeze_live hm]
        rfl
      rw [hdone]
      exact List.getElem?_set_self hk

/-- Who is told that a handle was destroyed can rely on it. -/
theorem destroy_answered
    (hr : (b.perform backend horizon (.on k .destroy)).1 = .ok (.handle .done)) :
    ∃ h, (b.perform backend horizon (.on k .destroy)).2.handles[k]? = some h ∧
      h.machine = none := by
  cases hn : b.handles[k]? with
  | none =>
    unfold perform onHandle at hr
    dsimp only at hr
    rw [hn] at hr
    cases hr
  | some h =>
    obtain ⟨hk, -⟩ := List.getElem?_eq_some_iff.1 hn
    rw [perform_on backend horizon hn]
    refine ⟨_, List.getElem?_set_self hk, ?_⟩
    unfold Handle.perform
    dsimp only
    cases hd : h.destroy b.host with
    | error e =>
      cases hm : h.machine with
      | none => rfl
      | some i =>
        unfold Handle.destroy Handle.live at hd
        rw [hm] at hd
        cases hd
    | ok r =>
      obtain rfl := Handle.destroy_eq_ok hd
      rfl

/-- What was frozen stays as it is until it is released. -/
theorem frozen_stays {i : Instance} (hn : b.handles[k]? = some h) (hm : h.machine = some i)
    (hf : h.isFrozen = true) {later : List Op} (hdestroy : .on k .destroy ∉ later)
    (hdrop : .drop k ∉ later) : (b.performAll backend horizon later).handles[k]? = some h := by
  have hkept : ∃ h', (b.performAll backend horizon later).handles[k]? = some h' ∧ h' = h := by
    refine performAll_keeps backend horizon ?_ (fun _ _ ho _ => absurd ho hdrop) ⟨h, hn, rfl⟩
    rintro host h' o ho rfl
    refine Handle.perform_keeps_frozen hm hf horizon host ?_
    rintro rfl
    exact hdestroy ho
  obtain ⟨h', hn', rfl⟩ := hkept
  exact hn'

/-- What is gone stays gone. -/
theorem gone_stays (hn : ∃ h, b.handles[k]? = some h ∧ h.machine = none) (later : List Op) :
    ∃ h, (b.performAll backend horizon later).handles[k]? = some h ∧ h.machine = none := by
  refine performAll_keeps backend horizon (fun host h o _ hm => ?_) (fun host h _ _ => rfl) hn
  rw [Handle.perform_keeps_destroyed hm]
  exact hm

end

/-! ## Handles live apart -/

/-- No file that is written by others lies on the way of a path that the operations on a handle
name. -/
def FilesApart (k : Nat) (current : List String) (ops : List Op) : Prop :=
  ∀ op ∈ ops, op.isOf k = false → ∀ path, op.output = some path →
    ∀ own ∈ ops, own.isOf k = true → ∀ named ∈ own.paths,
      Path.target current path ∉ Path.way current named

/-- A handle that was frozen: it refuses every change and leaves the bench as it is, answers
questions as it did at the time, and can be copied without being changed; the copy is not frozen. -/
structure HoldsStill (k : Nat) (b now : Bench) : Prop where
  refuses : ∀ op : Handle.Op, op.isMutation = true →
    now.perform backend horizon (.on k op) = (fail .frozen, now)
  answers : ∀ op : Handle.Op, op.isQuestion = true →
    (now.perform backend horizon (.on k op)).1 = (b.perform backend horizon (.on k op)).1
  copies : ∃ n, (now.perform backend horizon (.copy k)).1 = .ok (.created n) ∧
    ((now.perform backend horizon (.copy k)).2.perform backend horizon (.on n .isFrozen)).1 =
      .ok (.handle (.bool false))

/-- A handle whose machine was released: it refuses everything that needs the machine, and leaves
the bench as it is. -/
structure IsOver (k : Nat) (now : Bench) : Prop where
  refuses : ∀ op : Handle.Op, op.needsMachine = true →
    now.perform backend horizon (.on k op) = (fail .destroyed, now)
  copy : now.perform backend horizon (.copy k) = (fail .destroyed, now)
  run : ∀ x d way, now.perform backend horizon (.run k x d way) = (fail .destroyed, now)
  openSession : ∀ root x stepChunk,
    now.perform backend horizon (.openSession k root x stepChunk) = (fail .destroyed, now)
  isDestroyed : now.perform backend horizon (.on k .isDestroyed) = (.ok (.handle (.bool true)), now)

section

variable {backend : Backend} {b now : Bench} {h : Handle} {k : Nat}

theorem holdsStill (hfit : now.Fit) {i : Instance} {h' : Handle} (hn : b.handles[k]? = some h)
    (hnow : now.handles[k]? = some h') (hm : h'.machine = some i) (hf : h'.isFrozen = true)
    (hmachine : h'.machine = h.machine) (hfamily : h'.family = h.family) :
    HoldsStill backend horizon k b now := by
  refine ⟨fun op hop => ?_, fun op hop => ?_, now.handles.length, ?_⟩
  · exact perform_on_same backend horizon hnow (Handle.perform_frozen hm hf horizon now.host hop)
  · rw [perform_on backend horizon hnow, perform_on backend horizon hn]
    exact congrArg (Except.map Reply.handle)
      (Handle.question_reply hmachine hfamily horizon hop)
  · have hcopy : ∃ copied host, h'.copy now.host = .ok (copied, host) ∧
        copied.isFrozen = false ∧ copied.machine.isSome = true := by
      obtain hgone | ⟨m, hplain⟩ := hfit.builtin _ (List.mem_of_getElem? hnow)
      · rw [hm] at hgone
        cases hgone
      · obtain ⟨machine, isFrozen, family⟩ := h'
        obtain rfl : machine = some (.plain m) := hplain
        cases family with
        | none => exact ⟨_, _, Handle.copy_plain now.host m isFrozen, rfl, rfl⟩
        | some t => exact ⟨_, _, Handle.copy_plain_some now.host m isFrozen t, rfl, rfl⟩
    obtain ⟨copied, host, hc, hfrozen, hsome⟩ := hcopy
    obtain ⟨j, hj⟩ := Option.isSome_iff_exists.1 hsome
    rw [perform_copy backend horizon hnow hc]
    refine ⟨rfl, ?_⟩
    have hnew : ({ now with host }.add copied).2.handles[now.handles.length]? =
        some copied := by
      simp [add]
    rw [perform_on backend horizon hnew]
    unfold Handle.perform Handle.reading Handle.live
    rw [hj, hfrozen]
    rfl

theorem isOver (hnow : now.handles[k]? = some h) (hm : h.machine = none) :
    IsOver backend horizon k now := by
  have hcopy : ∀ host, h.copy host = fail .destroyed := by
    intro host
    unfold Handle.copy Handle.live
    rw [hm]
    rfl
  refine ⟨fun op hop => ?_, perform_copy_error backend horizon hnow (hcopy _), ?_, ?_, ?_⟩
  · exact perform_on_same backend horizon hnow (Handle.perform_destroyed hm horizon now.host hop)
  · intro x d way
    unfold perform onHandle
    dsimp only
    rw [hnow]
    unfold Handle.runCopy
    dsimp only
    rw [hcopy]
    rfl
  · intro root x stepChunk
    unfold perform onHandle
    dsimp only
    rw [hnow]
    unfold openSession Session.prepare
    dsimp only
    rw [hcopy]
    rfl
  · have htold : h.perform horizon now.host .isDestroyed = ⟨.ok (.bool true), now.host, h⟩ := by
      unfold Handle.perform
      rw [hm]
      rfl
    rw [perform_on_same backend horizon hnow htold]
    rfl

end

/-- At a bench with the builtin engine, whatever was done there, a handle lives apart from all
others. What it answers does not hang on what is done with them in between, but for the numbers of
what is new and for files that both name. Once it is frozen it holds still until it is released, and
once it is released, frozen or not, that is the end of it. -/
theorem handles_live_apart {backend : Backend} (hb : backend.IsReference) {host : Host}
    (hnone : host.registry.entries = []) (earlier : List Op) {k : Nat}
    (hk : k < (performAll backend horizon ⟨host, [], []⟩ earlier).handles.length) :
    let b := performAll backend horizon ⟨host, [], []⟩ earlier
    let masked := maskedReply b.host.registry.lastToken
    (∀ ops, FilesApart k b.host.files.current ops →
      (answers backend horizon k b ops).map masked =
        (answers backend horizon k b (ops.filter (Op.isOf k))).map masked) ∧
    ((b.perform backend horizon (.on k .freeze)).1 = .ok (.handle .done) →
      ∀ later, .on k .destroy ∉ later → .drop k ∉ later →
        HoldsStill backend horizon k b
          (performAll backend horizon (b.perform backend horizon (.on k .freeze)).2 later)) ∧
    ((b.perform backend horizon (.on k .destroy)).1 = .ok (.handle .done) →
      ∀ later, IsOver backend horizon k
        (performAll backend horizon (b.perform backend horizon (.on k .destroy)).2 later)) := by
  intro b masked
  have hfit : b.Fit := (fit_of_none hnone).performAll horizon hb earlier
  refine ⟨fun ops hapart => ?_, fun hfreeze later hdestroy hdrop => ?_, fun hdestroy later => ?_⟩
  · -- alone and among others the handle starts as its own twin
    let own : List String → Prop := fun ns =>
      ∃ op ∈ ops, op.isOf k = true ∧ ∃ path ∈ op.paths, ns ∈ Path.way b.host.files.current path
    have hbeside : Beside b.host.registry.lastToken k own b b :=
      ⟨hfit, ⟨.refl _ _, Nat.le_refl _, Nat.le_refl _⟩, _, _, List.getElem?_eq_getElem hk,
        List.getElem?_eq_getElem hk, hfit.twins (List.getElem_mem hk) _⟩
    refine hbeside.answers horizon hb ?_ fun op hop ho path hpath ns hns =>
      ⟨op, hop, ho, path, hpath, hns⟩
    rintro op hop ho path hpath ⟨mine, hmine, hisOf, named, hnamed, hway⟩
    exact hapart op hop ho path hpath mine hmine hisOf named hnamed hway
  · obtain ⟨h, i, hn, hm, hnow⟩ := freeze_answered backend horizon hfreeze
    have hlater := frozen_stays backend horizon hnow hm rfl hdestroy hdrop
    have hfit' := (hfit.perform horizon hb (.on k .freeze)).performAll horizon hb later
    exact holdsStill horizon hfit' hn hlater hm rfl rfl rfl
  · obtain ⟨h, hn, hm⟩ :=
      gone_stays backend horizon (destroy_answered backend horizon hdestroy) later
    exact isOver horizon hn hm

/-- A clone of the reader answers as if it were alone, though its source leaves their family and is
destroyed; it is frozen, while its source goes on, and then destroyed for good. -/
theorem handles_live_apart_on_reader :
    let b := performAll referenceBackend 9 ⟨readerHost, [], []⟩
      [.load (Bytes.ofText "/image"), .on 0 (.setResolver (.always [])), .copy 0]
    let ops : List Op := [.on 0 (.setResolver (.always [1])), .on 1 .token, .on 0 .destroy,
      .on 1 (.step .never 1), .on 1 .status]
    FilesApart 1 b.host.files.current ops ∧
    (answers referenceBackend 9 1 b ops).map (maskedReply 1) =
      (answers referenceBackend 9 1 b
        [.on 1 .token, .on 1 (.step .never 1), .on 1 .status]).map (maskedReply 1) ∧
    HoldsStill referenceBackend 9 1 b
      (performAll referenceBackend 9 (b.perform referenceBackend 9 (.on 1 .freeze)).2
        [.on 0 (.step .never 1), .on 1 (.step .never 1)]) ∧
    IsOver referenceBackend 9 1
      (performAll referenceBackend 9 (b.perform referenceBackend 9 (.on 1 .destroy)).2
        [.on 0 .freeze]) := by
  intro b ops
  have himage : Program.load readerHost.files (Bytes.ofText "/image") = .ok reader :=
    Program.load_written rfl
  have hload : (perform referenceBackend 9 ⟨readerHost, [], []⟩
      (.load (Bytes.ofText "/image"))).2 =
        ⟨readerHost, [.plain (.ofProgram reader) false none], []⟩ := by
    unfold perform
    dsimp only
    rw [Backend.load_reference referenceBackend_isReference, himage]
    rfl
  have hbench : b = performAll referenceBackend 9
      ⟨readerHost, [.plain (.ofProgram reader) false none], []⟩
      [.on 0 (.setResolver (.always [])), .copy 0] := by
    rw [← hload]
    rfl
  have hk : 1 < b.handles.length := by
    rw [hbench]
    decide
  have hapart : FilesApart 1 b.host.files.current ops := by
    intro op hop ho path hpath
    simp only [ops, List.mem_cons, List.not_mem_nil, or_false] at hop
    rcases hop with rfl | rfl | rfl | rfl | rfl <;> cases hpath
  obtain ⟨halone, hfrozen, hover⟩ :=
    handles_live_apart 9 referenceBackend_isReference
      (show readerHost.registry.entries = [] from rfl) _ hk
  have hlast : b.host.registry.lastToken = 1 := by
    rw [hbench]
    rfl
  refine ⟨hapart, ?_, hfrozen ?_ _ ?_ ?_, hover ?_ _⟩
  · have hanswers : (answers referenceBackend 9 1 b ops).map
        (maskedReply b.host.registry.lastToken) =
          (answers referenceBackend 9 1 b (ops.filter (Op.isOf 1))).map
            (maskedReply b.host.registry.lastToken) := halone ops hapart
    rw [hlast] at hanswers
    exact hanswers
  · show (b.perform referenceBackend 9 (.on 1 .freeze)).1 = _
    rw [hbench]
    rfl
  · simp
  · simp
  · show (b.perform referenceBackend 9 (.on 1 .destroy)).1 = _
    rw [hbench]
    rfl

end Rerun.Bench
