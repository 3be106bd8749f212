import Rerun.Cache.Desk
import Rerun.Proofs.Cache.Move

/-!
# One build for all who ask

Whatever happens in whatever order, a root has at most one build in flight, whoever waits for a
build gets the outcome of that one, a value is kept for good, and a failure leaves nothing behind
(`single_flight`).
-/

namespace Rerun.Cache

variable {α : Type}

namespace Desk

variable {d d' d'' : Desk α} {n : Nat} {root : Digest}

/-! ## What an event does to the cache -/

/-- With this event a build of a root that is in flight comes to an end, and whoever waits for it
is to be told this outcome. -/
inductive Event.Ends (n : Nat) (root : Digest) : Event α → Except Error α → Prop where
  | value (a : α) : Ends n root (.finish n (.ok a)) (.ok a)
  | failed (e : Error) : Ends n root (.finish n (.error (.error e))) (.error e)
  | panicked (payload : Payload) :
      Ends n root (.finish n (.error (.panic payload)))
        (.error (.buildFailed root "machine build panicked"))
  | dropped : Ends n root (.drop n) (.error (.buildFailed root "machine build aborted"))

/-- The end of a build settles it with the outcome that belongs to it. -/
theorem cache_step_ends {event : Event α} {o : Except Error α} (hc : d.cache.Sound)
    (h : d.cache.IsInFlight n root) (he : event.Ends n root o) :
    ∃ phase, (Build.mk root phase).outcome? = some o ∧
      (d.step event).cache = d.cache.settled n root phase := by
  have hfinish : ∀ (result : Result α) o, Build.outcomeOf root result = some o →
      (d.finish n result).cache = d.cache.settled n root (.ended o) := by
    intro result o ho
    have hb : d.cache.builds[n]? = some ⟨root, .inFlight⟩ := h
    unfold finish
    rw [hb]
    dsimp only
    rw [ho]
    exact finish_inFlight h o
  cases he with
  | value a => exact ⟨.ended _, rfl, hfinish _ _ rfl⟩
  | failed e => exact ⟨.ended _, rfl, hfinish _ _ rfl⟩
  | panicked payload => exact ⟨.ended _, rfl, hfinish _ _ rfl⟩
  | dropped => exact ⟨.dropped, rfl, hc.drop_inFlight h⟩

/-- Unless it is a request, an event leaves the cache as it is or brings a build to its end. -/
theorem cache_step_cases (hc : d.cache.Sound) {event : Event α}
    (hr : ∀ root, event ≠ .request root) :
    (d.step event).cache = d.cache ∨ ∃ n root phase, d.cache.IsInFlight n root ∧
      phase.isInFlight = false ∧ (d.step event).cache = d.cache.settled n root phase := by
  cases event with
  | request root => exact absurd rfl (hr root)
  | finish n result =>
    by_cases h : ∃ root, d.cache.IsInFlight n root
    · obtain ⟨root, h⟩ := h
      have hb : d.cache.builds[n]? = some ⟨root, .inFlight⟩ := h
      have hstep : (d.step (.finish n result)).cache = (d.finish n result).cache := rfl
      unfold finish at hstep
      rw [hb] at hstep
      dsimp only at hstep
      cases ho : Build.outcomeOf root result with
      | none =>
        rw [ho] at hstep
        exact .inl hstep
      | some o =>
        rw [ho] at hstep
        exact .inr ⟨n, root, .ended o, h, rfl, hstep.trans (finish_inFlight h o)⟩
    · refine .inl ?_
      show (d.finish n result).cache = d.cache
      unfold finish
      split
      · rfl
      · split
        · rfl
        · exact finish_over (not_exists.1 h) _
  | drop n =>
    by_cases h : ∃ root, d.cache.IsInFlight n root
    · obtain ⟨root, h⟩ := h
      exact .inr ⟨n, root, .dropped, h, rfl, hc.drop_inFlight h⟩
    · exact .inl (drop_over (not_exists.1 h))
  | tell n =>
    refine .inl ?_
    show (d.tell n).cache = d.cache
    unfold tell
    split <;> rfl
  | deliver i => exact .inl rfl

theorem cache_step_move (hc : d.cache.Sound) (event : Event α) :
    d.cache.Move (d.step event).cache := by
  by_cases hr : ∃ root, event = .request root
  · obtain ⟨root, rfl⟩ := hr
    exact request_move d.cache root
  · rcases cache_step_cases hc (not_exists.1 hr) with hsame | ⟨n, root, phase, h, hp, hend⟩
    · rw [hsame]
      exact .counted rfl rfl rfl
    · rw [hend]
      exact .settled h hp

/-- Nothing but a request makes a root known. -/
theorem entry?_step_none (hc : d.cache.Sound) {event : Event α} (hr : event ≠ .request root)
    (h : d.cache.entry? root = none) : Cache.entry? (d.step event).cache root = none := by
  by_cases hq : ∃ r, event = .request r
  · obtain ⟨r, rfl⟩ := hq
    have hne : root ≠ r := by
      rintro rfl
      exact hr rfl
    show Cache.entry? (d.cache.request r).2 root = none
    cases hk : d.cache.entry? r with
    | none =>
      rw [request_new hk, entry?_started, if_neg hne]
      exact h
    | some e =>
      obtain ⟨-, hentries, -⟩ := request_known hk
      unfold entry?
      rw [hentries]
      exact h
  · rcases cache_step_cases hc (not_exists.1 hq) with hsame | ⟨n, r, phase, hb, -, hend⟩
    · rw [hsame, h]
    · have hne : root ≠ r := by
        rintro rfl
        cases (hc.entry?_inFlight hb).symm.trans h
      rw [hend, entry?_settled, if_neg hne, h]

theorem step_sound (hc : d.cache.Sound) (event : Event α) : (d.step event).cache.Sound :=
  hc.move (cache_step_move hc event)

/-! ## What was heard -/

/-- What was found out, what was told, and who asked for what stay as they are. -/
structure Grows (d d' : Desk α) : Prop where
  cache : d.cache.Grows d'.cache
  told : ∀ n ∈ d.told, n ∈ d'.told
  callers : ∀ (i : Nat) k, d.callers[i]? = some k → ∃ k', d'.callers[i]? = some k' ∧
    k'.root = k.root ∧ k'.ticket = k.ticket ∧ ∀ o, k.answer = some o → k'.answer = some o

theorem Grows.refl (d : Desk α) : d.Grows d where
  cache := .refl d.cache
  told _ h := h
  callers _ k h := ⟨k, h, rfl, rfl, fun _ ho => ho⟩

theorem Grows.trans (h : d.Grows d') (h' : d'.Grows d'') : d.Grows d'' where
  cache := h.cache.trans h'.cache
  told n hn := h'.told n (h.told n hn)
  callers i k hk := by
    obtain ⟨k', hk', hroot, hticket, hgiven⟩ := h.callers i k hk
    obtain ⟨k'', hk'', hroot', hticket', hgiven'⟩ := h'.callers i k' hk'
    exact ⟨k'', hk'', hroot'.trans hroot, hticket'.trans hticket,
      fun o ho => hgiven' o (hgiven o ho)⟩

theorem heard?_build (d : Desk α) (n : Nat) :
    d.heard? (.build n) = if n ∈ d.told then d.cache.builds[n]?.bind Build.outcome? else none :=
  rfl

/-- What a ticket is worth does not change once it is known. -/
theorem Grows.heard (h : d.Grows d') {t : Ticket α} {o : Except Error α}
    (ho : d.heard? t = some o) : d'.heard? t = some o := by
  cases t with
  | value a => exact ho
  | build n =>
    rw [heard?_build] at ho ⊢
    by_cases hn : n ∈ d.told
    · rw [if_pos hn] at ho
      rw [if_pos (h.told n hn)]
      exact h.cache.answer? ho
    · rw [if_neg hn] at ho
      cases ho

/-! ## Everyone who asked -/

/-- A caller holds a ticket for what it asked for, and was given nothing but what it is worth. -/
structure Suits (d : Desk α) (k : Caller α) : Prop where
  value : ∀ a, k.ticket = .value a → d.cache.entry? k.root = some (.ready a)
  build : ∀ n, k.ticket = .build n → ∃ phase, d.cache.builds[n]? = some ⟨k.root, phase⟩
  answer : ∀ o, k.answer = some o → d.heard? k.ticket = some o

/-- A desk is in order. -/
structure Sound (d : Desk α) : Prop where
  cache : d.cache.Sound
  callers : ∀ k ∈ d.callers, d.Suits k
  requests : d.cache.hits + d.cache.joins + d.cache.builds.length = d.callers.length

theorem Sound.new : Sound ({} : Desk α) where
  cache := .new
  callers := nofun
  requests := rfl

theorem Suits.grows {k : Caller α} (hk : d.Suits k) (h : d.Grows d') : d'.Suits k where
  value a ht := (h.cache.ready k.root a (hk.value a ht)).1
  build n ht := by
    obtain ⟨phase, hb⟩ := hk.build n ht
    obtain ⟨phase', hb', -⟩ := h.cache.builds n k.root phase hb
    exact ⟨phase', hb'⟩
  answer o ho := h.heard (hk.answer o ho)

theorem Suits.served {k : Caller α} (hk : d.Suits k) : d.Suits (Caller.served d k) := by
  unfold Caller.served
  cases ho : k.answer with
  | some o => exact hk
  | none => exact ⟨hk.value, hk.build, fun o h => h⟩

/-- What a caller was given or could be given is what its ticket is worth. -/
theorem Sound.answer?_eq (hd : d.Sound) {i : Nat} {k : Caller α} (hi : d.callers[i]? = some k) :
    d.answer? i = d.heard? k.ticket := by
  have hk := hd.callers k (List.mem_of_getElem? hi)
  unfold answer? step
  dsimp only
  rw [List.getElem?_modify_eq, hi]
  show (Caller.served d k).answer = _
  unfold Caller.served
  cases ho : k.answer with
  | some o => rw [ho, hk.answer o ho]
  | none => rfl

/-- The ticket that a request gets. -/
theorem request_ticket (c : Cache α) (root : Digest) :
    (c.request root).1 =
      match c.ready? root with
      | some a => .value a
      | none => .build ((c.building? root).getD c.builds.length) := by
  unfold request ready? building?
  cases c.entry? root with
  | none => rfl
  | some e => cases e <;> rfl

/-- Who asks for a root that is not ready waits for the build of it that is in flight. -/
theorem request_inFlight (hc : d.cache.Sound) (hr : d.cache.ready? root = none) :
    (d.step (.request root)).cache.IsInFlight
      ((d.cache.building? root).getD d.cache.builds.length) root := by
  show (d.cache.request root).2.IsInFlight _ root
  unfold ready? at hr
  unfold building?
  cases h : d.cache.entry? root with
  | none =>
    rw [request_new h]
    unfold IsInFlight
    rw [getElem?_started]
    exact if_pos rfl
  | some e =>
    cases e with
    | ready a =>
      rw [h] at hr
      cases hr
    | building n =>
      obtain ⟨-, -, hbuilds⟩ := request_known h
      unfold IsInFlight
      rw [hbuilds]
      exact (hc.building n root).1 h

theorem callers_request (d : Desk α) (root : Digest) :
    (d.step (.request root)).callers =
      d.callers ++ [⟨root, (d.cache.request root).1, none⟩] := rfl

theorem callers_step (d : Desk α) {event : Event α} (hr : ∀ root, event ≠ .request root) :
    (d.step event).callers = d.callers ∨
      ∃ i, (d.step event).callers = d.callers.modify i (Caller.served d) := by
  cases event with
  | request root => exact absurd rfl (hr root)
  | finish n result =>
    refine .inl ?_
    show (d.finish n result).callers = d.callers
    unfold finish
    split
    · rfl
    · split <;> rfl
  | drop n => exact .inl rfl
  | tell n =>
    refine .inl ?_
    show (d.tell n).callers = d.callers
    unfold tell
    split <;> rfl
  | deliver i => exact .inr ⟨i, rfl⟩

theorem told_step (d : Desk α) (event : Event α) {n : Nat} (h : n ∈ d.told) :
    n ∈ (d.step event).told := by
  cases event with
  | request root => exact h
  | finish k result =>
    show n ∈ (d.finish k result).told
    unfold finish
    split
    · exact h
    · split <;> exact h
  | drop k => exact h
  | tell k =>
    show n ∈ (d.tell k).told
    unfold tell
    split
    · exact List.mem_cons_of_mem k h
    · exact h
  | deliver i => exact h

theorem Caller.served_kept (d : Desk α) (k : Caller α) :
    (Caller.served d k).root = k.root ∧ (Caller.served d k).ticket = k.ticket ∧
      ∀ o, k.answer = some o → (Caller.served d k).answer = some o := by
  unfold Caller.served
  cases ho : k.answer with
  | some o => exact ⟨rfl, rfl, fun o h => ho.trans h⟩
  | none => exact ⟨rfl, rfl, nofun⟩

/-- Nothing that happens takes anything back. -/
theorem step_grows (hc : d.cache.Sound) (event : Event α) : d.Grows (d.step event) where
  cache := (cache_step_move hc event).grows hc
  told _ := told_step d event
  callers i k hk := by
    by_cases hr : ∃ root, event = .request root
    · obtain ⟨root, rfl⟩ := hr
      obtain ⟨hlt, -⟩ := List.getElem?_eq_some_iff.1 hk
      rw [callers_request, List.getElem?_append_left hlt]
      exact ⟨k, hk, rfl, rfl, fun _ ho => ho⟩
    · rcases callers_step d (not_exists.1 hr) with h | ⟨j, h⟩
      · rw [h]
        exact ⟨k, hk, rfl, rfl, fun _ ho => ho⟩
      · rw [h]
        by_cases hij : j = i
        · subst hij
          rw [List.getElem?_modify_eq, hk]
          exact ⟨_, rfl, Caller.served_kept d k⟩
        · rw [List.getElem?_modify_ne _ _ hij]
          exact ⟨k, hk, rfl, rfl, fun _ ho => ho⟩

/-- Whoever is new suits the desk after its request. -/
theorem suits_new (hc : d.cache.Sound) (root : Digest) :
    (d.step (.request root)).Suits ⟨root, (d.cache.request root).1, none⟩ := by
  rw [request_ticket]
  cases hr : d.cache.ready? root with
  | some a =>
    have hready := ((step_grows hc (.request root)).cache.ready root a (ready?_eq_some.1 hr)).1
    refine ⟨fun b hb => ?_, nofun, nofun⟩
    cases hb
    exact hready
  | none =>
    refine ⟨nofun, fun n hn => ?_, nofun⟩
    cases hn
    exact ⟨.inFlight, request_inFlight hc hr⟩

theorem mem_modify {β : Type} {f : β → β} {x : β} {xs : List β} {i : Nat}
    (h : x ∈ xs.modify i f) : x ∈ xs ∨ ∃ y ∈ xs, x = f y := by
  obtain ⟨j, hj⟩ := List.mem_iff_getElem?.1 h
  by_cases hij : i = j
  · subst hij
    rw [List.getElem?_modify_eq] at hj
    obtain ⟨y, hy, rfl⟩ := Option.map_eq_some_iff.1 hj
    exact .inr ⟨y, List.mem_of_getElem? hy, rfl⟩
  · rw [List.getElem?_modify_ne _ _ hij] at hj
    exact .inl (List.mem_of_getElem? hj)

theorem callers_suit (hd : d.Sound) (event : Event α) :
    ∀ k ∈ (d.step event).callers, (d.step event).Suits k := by
  have hg := step_grows hd.cache event
  intro k hk
  by_cases hr : ∃ root, event = .request root
  · obtain ⟨root, rfl⟩ := hr
    rw [callers_request] at hk
    rcases List.mem_append.1 hk with hk | hk
    · exact (hd.callers k hk).grows hg
    · cases List.mem_singleton.1 hk
      exact suits_new hd.cache root
  · rcases callers_step d (not_exists.1 hr) with h | ⟨i, h⟩
    · rw [h] at hk
      exact (hd.callers k hk).grows hg
    · rw [h] at hk
      rcases mem_modify hk with hk | ⟨k₀, hk₀, rfl⟩
      · exact (hd.callers k hk).grows hg
      · exact (hd.callers k₀ hk₀).served.grows hg

def Event.isRequest : Event α → Bool
  | .request _ => true
  | _ => false

theorem callers_length_step (d : Desk α) (event : Event α) :
    (d.step event).callers.length = d.callers.length + if event.isRequest then 1 else 0 := by
  by_cases hr : ∃ root, event = .request root
  · obtain ⟨root, rfl⟩ := hr
    rw [callers_request, List.length_append]
    rfl
  · have hno : event.isRequest = false := by
      cases event with
      | request root => exact absurd ⟨root, rfl⟩ hr
      | _ => rfl
    rw [hno]
    rcases callers_step d (not_exists.1 hr) with h | ⟨i, h⟩
    · rw [h]
      rfl
    · rw [h, List.length_modify]
      rfl

/-- Every request is a hit, a join or the start of a build. -/
theorem request_counts (c : Cache α) (root : Digest) :
    let c' := (c.request root).2
    c'.hits + c'.joins + c'.builds.length = c.hits + c.joins + c.builds.length + 1 := by
  unfold request
  cases c.entry? root with
  | none =>
    dsimp only
    rw [List.length_append]
    rfl
  | some e =>
    cases e with
    | ready a =>
      dsimp only
      omega
    | building n =>
      dsimp only
      omega

theorem step_counts (hc : d.cache.Sound) (event : Event α) :
    let c' := (d.step event).cache
    c'.hits + c'.joins + c'.builds.length =
      d.cache.hits + d.cache.joins + d.cache.builds.length + if event.isRequest then 1 else 0 := by
  intro c'
  by_cases hr : ∃ root, event = .request root
  · obtain ⟨root, rfl⟩ := hr
    exact request_counts d.cache root
  · have hno : event.isRequest = false := by
      cases event with
      | request root => exact absurd ⟨root, rfl⟩ hr
      | _ => rfl
    rw [hno]
    unfold c'
    rcases cache_step_cases hc (not_exists.1 hr) with h | ⟨n, root, phase, -, -, h⟩
    · rw [h]
      rfl
    · rw [h]
      show _ + _ + (d.cache.builds.set n _).length = _
      rw [List.length_set]
      rfl

theorem Sound.step (hd : d.Sound) (event : Event α) : (d.step event).Sound where
  cache := step_sound hd.cache event
  callers := callers_suit hd event
  requests := by
    rw [callers_length_step, step_counts hd.cache, hd.requests]

/-! ## Whatever happens -/

theorem steps_cons (d : Desk α) (event : Event α) (later : List (Event α)) :
    d.steps (event :: later) = (d.step event).steps later := rfl

theorem Sound.steps (hd : d.Sound) (later : List (Event α)) :
    (d.steps later).Sound ∧ d.Grows (d.steps later) := by
  induction later generalizing d with
  | nil => exact ⟨hd, .refl d⟩
  | cons event later ih =>
    obtain ⟨hs, hg⟩ := ih (hd.step event)
    exact ⟨hs, (step_grows hd.cache event).trans hg⟩

theorem callers_length_steps (d : Desk α) (later : List (Event α)) :
    (d.steps later).callers.length = d.callers.length + later.countP Event.isRequest := by
  induction later generalizing d with
  | nil => rfl
  | cons event later ih =>
    rw [steps_cons, ih, callers_length_step, List.countP_cons]
    omega

/-- A root that nothing is known of stays so until it is asked for. -/
theorem Sound.entry?_steps_none (hd : d.Sound) {later : List (Event α)}
    (hl : ∀ event ∈ later, event ≠ .request root) (h : d.cache.entry? root = none) :
    Cache.entry? (d.steps later).cache root = none := by
  induction later generalizing d with
  | nil => exact h
  | cons event later ih =>
    have hfirst := entry?_step_none hd.cache (hl event List.mem_cons_self) h
    exact ih (hd.step event) (fun e he => hl e (List.mem_cons_of_mem _ he)) hfirst

/-- After an outcome went out, whoever holds a ticket of its build is worth it. -/
theorem heard?_tell {b : Build α} {o : Except Error α} (hb : d.cache.builds[n]? = some b)
    (ho : b.outcome? = some o) : (d.step (.tell n)).heard? (.build n) = some o := by
  have hanswer : d.cache.answer? (.build n) = some o := by
    unfold Cache.answer?
    dsimp only
    rw [hb]
    exact ho
  have htell : d.step (.tell n) = { d with told := n :: d.told } := by
    show d.tell n = _
    unfold tell
    rw [hanswer]
    rfl
  rw [htell, heard?_build, if_pos List.mem_cons_self]
  exact hanswer

/-- Whatever else happens, whoever waits for a build is told how that one ended. -/
theorem Sound.answered (hd : d.Sound) {event : Event α} {o : Except Error α}
    (h : d.cache.IsInFlight n root) (he : event.Ends n root o) (later more : List (Event α))
    {i : Nat} {k : Caller α}
    (hk : ((((d.step event).steps later).step (.tell n)).steps more).callers[i]? = some k)
    (ht : k.ticket = .build n) :
    k.root = root ∧
      ((((d.step event).steps later).step (.tell n)).steps more).answer? i = some o := by
  obtain ⟨phase, ho, hend⟩ := cache_step_ends hd.cache h he
  have hover := Build.isInFlight_of_outcome ho
  -- the build and its outcome stay as they are until the word goes out
  have hbuild : (d.step event).cache.builds[n]? = some ⟨root, phase⟩ := by
    rw [hend, getElem?_settled h, if_pos rfl]
  obtain ⟨hlater, hgrows⟩ := (hd.step event).steps later
  obtain ⟨phase', hb', hkept⟩ := hgrows.cache.builds n root phase hbuild
  rw [hkept hover] at hb'
  have hheard := heard?_tell hb' ho
  -- and what a ticket is worth stays
  obtain ⟨hmore, hgrows'⟩ := (hlater.step (.tell n)).steps more
  have hsuits := hmore.callers k (List.mem_of_getElem? hk)
  refine ⟨?_, ?_⟩
  · obtain ⟨phase₁, hb₁⟩ := hsuits.build n ht
    obtain ⟨phase₂, hb₂, -⟩ :=
      ((step_grows hlater.cache (.tell n)).trans hgrows').cache.builds n root phase hb'
    cases hb₁.symm.trans hb₂
    rfl
  · rw [hmore.answer?_eq hk, ht]
    exact hgrows'.heard hheard

/-- What a desk owes to everyone who asked or will ask, after what happened so far. -/
structure IsSingleFlight (history : List (Event α)) (d : Desk α) : Prop where
  /-- At most one build of a root is in flight. -/
  unique : ∀ root m n, d.cache.IsInFlight m root → d.cache.IsInFlight n root → m = n
  /-- A root that is ready keeps its value, no build of it starts again, and whoever asks for it
  later gets that value. -/
  ready : ∀ root a, d.cache.ready? root = some a → ∀ later more,
    let d' := d.steps later
    d'.cache.ready? root = some a ∧ d'.cache.begun root = d.cache.begun root ∧
      ((d'.step (.request root)).steps more).answer? d'.nextCaller = some (.ok a)
  /-- Whoever asks for a root that is not ready waits for the build of it that is in flight, and if
  there is none, for a new one. -/
  asked : ∀ root, d.cache.ready? root = none →
    let n := (d.cache.building? root).getD d.cache.builds.length
    let d' := d.step (.request root)
    d'.callers[d.nextCaller]? = some ⟨root, .build n, none⟩ ∧ d'.cache.IsInFlight n root
  /-- A caller keeps its ticket, and what it was given. -/
  keeps : ∀ (i : Nat) k, d.callers[i]? = some k → ∀ later,
    ∃ k', (d.steps later).callers[i]? = some k' ∧ k'.root = k.root ∧ k'.ticket = k.ticket ∧
      ∀ o, k.answer = some o → k'.answer = some o
  /-- Whoever waits for a build has heard nothing but its outcome, and that once the word went
  out. -/
  waiting : ∀ (i : Nat) k n, d.callers[i]? = some k → k.ticket = .build n →
    ∃ phase, d.cache.builds[n]? = some ⟨k.root, phase⟩ ∧
      d.answer? i = if n ∈ d.told then (Build.mk k.root phase).outcome? else none
  /-- However a build ends, all who wait for it get that outcome for good, when the word goes out,
  whatever happens in between and afterwards. -/
  answered : ∀ n root event o, d.cache.IsInFlight n root → event.Ends n root o →
    ∀ (later more : List (Event α)) (i : Nat) k,
      let d' := (((d.step event).steps later).step (.tell n)).steps more
      d'.callers[i]? = some k → k.ticket = .build n →
        k.root = root ∧ d'.answer? i = some o
  /-- A root is absent after a build without a value until it is asked for, which starts a new
  build. -/
  absent : ∀ n root event e, d.cache.IsInFlight n root → event.Ends n root (.error e) →
    ∀ later, (∀ event ∈ later, event ≠ .request root) →
      let d' := (d.step event).steps later
      let fresh := d'.cache.builds.length
      Cache.entry? d'.cache root = none ∧
        (d'.step (.request root)).callers[d'.nextCaller]? = some ⟨root, .build fresh, none⟩ ∧
        (d'.step (.request root)).cache.IsInFlight fresh root
  requests : d.cache.hits + d.cache.joins + d.cache.builds.length = history.countP Event.isRequest
  builds : d.cache.stats.builds = d.cache.stats.failures + d.cache.stats.cached +
    d.cache.inFlightCount + d.cache.droppedCount

/-- A root whose build ended without a value is absent. -/
theorem Sound.entry?_failed (hd : d.Sound) {event : Event α} {e : Error}
    (h : d.cache.IsInFlight n root) (he : event.Ends n root (.error e)) :
    Cache.entry? (d.step event).cache root = none := by
  obtain ⟨phase, ho, hend⟩ := cache_step_ends hd.cache h he
  rw [hend, entry?_settled, if_pos rfl]
  cases phase with
  | inFlight => cases ho
  | ended o =>
    cases ho
    rfl
  | dropped => rfl

theorem callers_asked (d : Desk α) (hr : d.cache.ready? root = none) :
    (d.step (.request root)).callers[d.nextCaller]? =
      some ⟨root, .build ((d.cache.building? root).getD d.cache.builds.length), none⟩ := by
  rw [callers_request, request_ticket, hr]
  exact List.getElem?_concat_length

/-- Whatever requests are made and however builds end, in whatever order: one build at a time for a
root, its outcome for all who wait for it, a value for good, and nothing left of a failure. -/
theorem single_flight (history : List (Event α)) :
    IsSingleFlight history (({} : Desk α).steps history) := by
  obtain ⟨hd, -⟩ := (Sound.new (α := α)).steps history
  constructor
  case unique => exact fun root m n => hd.cache.unique
  case ready =>
    intro root a hr later more d'
    have hready := ready?_eq_some.1 hr
    obtain ⟨hd', hgrows⟩ := hd.steps later
    obtain ⟨hready', hbegun⟩ := hgrows.cache.ready root a hready
    have hr' := ready?_eq_some.2 hready'
    refine ⟨hr', hbegun, ?_⟩
    obtain ⟨hmore, hgrows'⟩ := (hd'.step (.request root)).steps more
    have hnew : (d'.step (.request root)).callers[d'.nextCaller]? =
        some ⟨root, .value a, none⟩ := by
      rw [callers_request, request_ticket, hr']
      exact List.getElem?_concat_length
    obtain ⟨k, hk, -, hticket, -⟩ := hgrows'.callers _ _ hnew
    rw [hmore.answer?_eq hk, hticket]
    rfl
  case asked =>
    intro root hr n d'
    exact ⟨callers_asked _ hr, request_inFlight hd.cache hr⟩
  case keeps =>
    intro i k hk later
    obtain ⟨-, hgrows⟩ := hd.steps later
    exact hgrows.callers i k hk
  case waiting =>
    intro i k n hk ht
    obtain ⟨phase, hb⟩ := (hd.callers k (List.mem_of_getElem? hk)).build n ht
    refine ⟨phase, hb, ?_⟩
    rw [hd.answer?_eq hk, ht, heard?_build, hb]
    rfl
  case answered =>
    intro n root event o h he later more i k d' hk ht
    exact hd.answered h he later more hk ht
  case absent =>
    intro n root event e h he later hl d' fresh
    obtain ⟨hd', -⟩ := (hd.step event).steps later
    have hnone : Cache.entry? d'.cache root = none :=
      (hd.step event).entry?_steps_none hl (hd.entry?_failed h he)
    have hr : d'.cache.ready? root = none := by
      unfold ready?
      rw [hnone]
    have hfresh : (d'.cache.building? root).getD d'.cache.builds.length = fresh := by
      unfold building?
      rw [hnone]
      rfl
    have hasked := callers_asked d' hr
    have hinFlight := request_inFlight hd'.cache hr
    rw [hfresh] at hasked hinFlight
    exact ⟨hnone, hasked, hinFlight⟩
  case requests =>
    rw [hd.requests, callers_length_steps]
    exact Nat.zero_add _
  case builds => exact hd.cache.builds_length

/-- A root is asked for again before the word of its first build goes out. The first caller gets the
failure of the first build, and the second one the value of the second. -/
example :
    let d := ({} : Desk Nat).steps [.request .zero, .finish 0 (.error (.error .cancelled)),
      .request .zero, .drop 0, .tell 0, .finish 1 (.ok 5), .finish 0 (.ok 4), .tell 1]
    (d.answer? 0, d.answer? 1) = (some (.error .cancelled), some (.ok 5)) := by rfl

end Desk

end Rerun.Cache
