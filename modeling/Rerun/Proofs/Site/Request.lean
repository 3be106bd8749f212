import Rerun.Proofs.Site.Lasting
import Rerun.Proofs.Site.Onward

/-!
# What requests are answered

Requests leave a site in order, and so does all work (`lasting_after`). Whoever asks for the
machines of a module root gets what the directory yielded in the beginning, if anything
(`pair_yields`). With enough patience for the builds the answer is the same whatever the site was
asked before (`pair_unique`).
-/

namespace Rerun.Site

variable {s₀ s s' s'' : Site} {root : Digest}

/-! ## Requests -/

/-- What a ticket for a module root stands for. -/
def Serves (s₀ s : Site) (root : Digest) : Cache.Ticket MachinePair → Prop
  | .value pair => s₀.Yields root (.ok pair)
  | .build n => ∃ phase, s.depot.cache.builds[n]? = some (Build.mk root phase)

theorem Serves.grows {ticket : Cache.Ticket MachinePair} (h : Serves s₀ s root ticket)
    (hg : s.Grows s') : Serves s₀ s' root ticket := by
  cases ticket with
  | value pair => exact h
  | build n =>
    obtain ⟨phase, hb⟩ := h
    exact hg.roots n root phase hb

/-- Whoever holds a ticket is told the outcome of the module root, if anything. -/
theorem Serves.answer (h : Serves s₀ s root ticket) (ha : After s₀ s)
    {o : Except Error MachinePair} (ho : s.depot.cache.answer? ticket = some o) :
    s₀.Yields root o := by
  cases ticket with
  | value pair =>
    cases ho
    exact h
  | build n =>
    obtain ⟨phase, hb⟩ := h
    unfold Cache.answer? at ho
    dsimp only at ho
    rw [hb, Option.bind_some] at ho
    rcases ha.builds n root phase hb with ⟨rfl, -⟩ | ⟨o', rfl, hy⟩
    · cases ho
    · cases ho
      exact hy

/-- Counting requests changes nothing. -/
theorem recounted_onward (ha : After s₀ s) {cache : Cache MachinePair}
    (hentries : cache.entries = s.depot.cache.entries)
    (hbuilds : cache.builds = s.depot.cache.builds) :
    After s₀ { s with depot := { s.depot with cache } } ∧
      s.Grows { s with depot := { s.depot with cache } } := by
  have hentry : ∀ r, cache.entry? r = s.depot.cache.entry? r := by
    intro r
    unfold Cache.entry?
    rw [hentries]
  refine ⟨⟨ha.backend, ha.clock, ha.locator, ha.names, ha.isOpen, ha.intact, ?_, ?_, ?_, ?_⟩,
    ?_, ?_, ?_⟩
  all_goals dsimp only; simp only [hentry, hbuilds]
  · exact ha.ready
  · exact ha.building
  · exact ha.builds
  · exact ha.walks
  · exact fun _ _ h => h
  · exact fun _ _ phase h => ⟨phase, h⟩
  · exact fun _ _ _ h => h

/-- A build that was started is in flight before it has a walk. -/
theorem started_after (ha : After s₀ s) (he : s.depot.cache.entry? root = none) :
    AfterBut (· = s.depot.cache.builds.length) s₀
        { s with depot := { s.depot with cache := s.depot.cache.started root } } ∧
      s.Grows { s with depot := { s.depot with cache := s.depot.cache.started root } } := by
  have hkeeps : ∀ (k : Nat) b, s.depot.cache.builds[k]? = some b →
      (s.depot.cache.started root).builds[k]? = some b := by
    intro k b hk
    obtain ⟨hlt, -⟩ := List.getElem?_eq_some_iff.1 hk
    rw [Cache.getElem?_started, if_neg (by omega), hk]
  refine ⟨⟨ha.backend, ha.clock, ha.locator, ha.names, ha.isOpen, ha.intact, ?_, ?_, ?_, ?_⟩,
    ?_, ?_, ?_⟩
  · intro r pair hr
    rw [Cache.entry?_started] at hr
    split at hr
    · cases hr
    · exact ha.ready r pair hr
  · intro r k hr
    rw [Cache.entry?_started] at hr
    split at hr
    · rename_i hrr
      cases hr
      exact ⟨.inFlight, by rw [Cache.getElem?_started, if_pos rfl, hrr]⟩
    · obtain ⟨phase, hk⟩ := ha.building r k hr
      exact ⟨phase, hkeeps k _ hk⟩
  · intro k r phase hk
    rw [Cache.getElem?_started] at hk
    split at hk
    · rename_i hkn
      cases hk
      exact .inl ⟨rfl, .inl hkn⟩
    · rcases ha.builds k r phase hk with ⟨hp, hbusy | hwalk⟩ | hended
      · exact absurd hbusy id
      · exact .inl ⟨hp, .inr hwalk⟩
      · exact .inr hended
  · intro k w hk
    obtain ⟨hway, hb⟩ := ha.walks k w hk
    exact ⟨hway, hkeeps k _ hb⟩
  · intro r pair hr
    rw [Cache.entry?_started, if_neg, hr]
    rintro rfl
    rw [he] at hr
    cases hr
  · intro k r phase hk
    exact ⟨phase, hkeeps k _ hk⟩
  · intro k r o hk
    exact hkeeps k _ hk

/-- A request leaves everything in order, and gives a ticket for its module root. -/
theorem request_onward (hc : s₀.Calm) (root : Digest) (ha : After s₀ s) :
    After s₀ (s.request root).2 ∧ s.Grows (s.request root).2 ∧
      Serves s₀ (s.request root).2 root (s.request root).1 := by
  cases he : s.depot.cache.entry? root with
  | some e =>
    obtain ⟨hticket, hentries, hbuilds⟩ := Cache.request_known he
    have hrequest : s.request root = ((s.depot.cache.request root).1,
        { s with depot := { s.depot with cache := (s.depot.cache.request root).2 } }) := by
      unfold request
      rw [he]
      rfl
    obtain ⟨hafter, hgrows⟩ := recounted_onward ha hentries hbuilds
    rw [hrequest]
    refine ⟨hafter, hgrows, ?_⟩
    dsimp only
    rw [hticket]
    cases e with
    | ready pair => exact ha.ready root pair he
    | building n =>
      obtain ⟨phase, hb⟩ := ha.building root n he
      exact hgrows.roots n root phase hb
  | none =>
    obtain ⟨hstarted, hgrows⟩ := started_after ha he
    have hb : (s.depot.cache.started root).builds[s.depot.cache.builds.length]? =
        some (Build.mk root .inFlight) := by
      rw [Cache.getElem?_started, if_pos rfl]
    obtain ⟨hafter, hgrows'⟩ := startBuild_onward hc hstarted hb
    rw [request_started he]
    exact ⟨hafter, hgrows.trans hgrows', hgrows'.roots _ root _ hb⟩

/-! ## Work -/

/-- Something that was done keeps what is in order, and what was found out before. -/
theorem Onward.keeps (h : Onward s₀ s s') {s₁ : Site} (hs : After s₀ s ∧ s₁.Grows s) :
    After s₀ s' ∧ s₁.Grows s' := by
  obtain ⟨hafter, hgrows⟩ := h hs.1
  exact ⟨hafter, hs.2.trans hgrows⟩

/-- All work leaves a site in order. -/
theorem lasting_after (hc : s₀.Calm) (s₁ : Site) : Lasting fun s => After s₀ s ∧ s₁.Grows s where
  counted metrics := Onward.keeps (.counted metrics)
  withHost hf := Onward.keeps (.withHost hf)
  request root hs := by
    obtain ⟨hafter, hgrows, -⟩ := request_onward hc root hs.1
    exact ⟨hafter, hs.2.trans hgrows⟩
  goOn pause n := (goOn_onward hc pause n).keeps

/-- Whoever asks for the pair of a module root gets what its directory yields, if anything. -/
theorem pair_yields (hc : s₀.Calm) (patience : Option Nat) (root : Digest) (ha : After s₀ s) :
    After s₀ (s.pair patience root).2.2 ∧
      ∀ o, (s.pair patience root).1 = some o → s₀.Yields root o := by
  obtain ⟨hafter, -, hserves⟩ := request_onward hc root ha
  unfold pair
  generalize s.request root = r at hafter hserves
  obtain ⟨ticket, s₁⟩ := r
  obtain ⟨hafter', hgrows'⟩ :=
    (lasting_after hc s₁).runs.await patience ticket ⟨hafter, .refl s₁⟩
  refine ⟨hafter', fun o ho => ?_⟩
  exact (hserves.grows hgrows').answer hafter' ho

/-- If the way of the program of a module root has an end, whoever waits for the pair has the
patience for it. -/
def Fits (s : Site) (root : Digest) : Prop :=
  ∀ p n, s.Walks root p → (Machine.ofProgram p).waitsWithin n = true →
    (Machine.ofProgram p).waitsWithin s.clock.horizon = true

/-- What a directory yields is yielded in time. -/
theorem Fits.waitsWithin (hf : s.Fits root) {o : Except Error MachinePair} (ho : s.Yields root o)
    {p : Program} (hw : s.Walks root p) :
    (Machine.ofProgram p).waitsWithin s.clock.horizon = true := by
  cases ho with
  | atOnce ends tells =>
    rw [Walks, ends] at hw
    cases hw
  | @walked q m walks ahead waits =>
    obtain rfl : p = q := by
      rw [Walks] at hw walks
      rw [hw] at walks
      exact MachinePair.firstWalk_injective (MachinePair.Stage.walking.inj walks)
    obtain ⟨n, hn⟩ := ahead.exists_waitsWithin waits
    exact hf p n hw hn

theorem goOn_ended (hc : s₀.Calm) (hf : s₀.Fits root) {o : Except Error MachinePair}
    (ho : s₀.Yields root o) (ha : After s₀ s) {n : Nat} {phase : Build.Phase MachinePair}
    (hb : s.depot.cache.builds[n]? = some (Build.mk root phase)) :
    ∃ o, (s.goOn none n).2.depot.cache.builds[n]? = some (Build.mk root (.ended o)) := by
  rcases ha.builds n root phase hb with ⟨rfl, hbusy | ⟨w, hl⟩⟩ | ⟨o, rfl, -⟩
  · exact absurd hbusy id
  · obtain ⟨hway, hbw⟩ := ha.walks n w hl
    obtain ⟨hright, -⟩ := hway.goOn hc s.clock.horizon none rfl ha.intact
    obtain ⟨p, m, d, hwalks, hahead, hd, hw⟩ := hway
    have hroot : p.root = root := by
      rw [hb, hw] at hbw
      exact (congrArg Build.root (Option.some.inj hbw)).symm
    have hfits : m.waitsWithin s.clock.horizon = true := by
      rw [ha.clock]
      exact hahead.waitsWithin (hf.waitsWithin ho (hroot ▸ hwalks))
    have hmachine : w.hostIo = .plain m false none := by rw [hw]
    have hlimit : w.deadline.limit = none := by rw [hw]; exact hd
    obtain ⟨result, hended⟩ := MachinePair.Walk.goOn_ends hmachine hlimit hfits s.host
    unfold goOn
    rw [hl]
    dsimp only
    cases hg : w.goOn s.clock.horizon none s.host with
    | mk stage rest =>
      rw [hg] at hright hended
      dsimp only at hright hended
      subst hended
      have hwroot : w.root = root := by rw [hw]; exact hroot
      rw [hwroot] at hright ⊢
      exact reach_ended (s := { s with host := rest.2 }) hb hright _
  · obtain ⟨-, hgrows⟩ := goOn_onward hc none n ha
    exact ⟨o, hgrows.ended n root o hb⟩

/-- With enough patience there is an outcome if the directory yields one. -/
theorem pair_isSome (hc : s₀.Calm) (hf : s₀.Fits root) {o : Except Error MachinePair}
    (ho : s₀.Yields root o) (ha : After s₀ s) : (s.pair none root).1.isSome = true := by
  obtain ⟨hafter, -, hserves⟩ := request_onward hc root ha
  unfold pair
  generalize s.request root = r at hafter hserves
  obtain ⟨ticket, s₁⟩ := r
  cases ticket with
  | value pair => rfl
  | build n =>
    obtain ⟨phase, hb⟩ := hserves
    obtain ⟨o', ho'⟩ := goOn_ended hc hf ho hafter hb
    obtain ⟨hgone, -⟩ := goOn_onward hc none n hafter
    unfold await
    dsimp only
    cases hg : s₁.goOn none n with
    | mk looks s₂ =>
      rw [hg] at ho' hgone
      obtain ⟨-, hpassed⟩ :=
        (lasting_after hc s₂).runs.pass looks (s₁.inFlight.filter (· ≠ n)) ⟨hgone, .refl s₂⟩
      have hended := hpassed.ended n root o' ho'
      unfold Cache.answer?
      dsimp only
      rw [hended]
      rfl

/-- The answer to a request does not depend on what was asked before. -/
theorem pair_unique (hc : s₀.Calm) (hf : s₀.Fits root) (h : After s₀ s) (h' : After s₀ s') :
    (s.pair none root).1 = (s'.pair none root).1 := by
  obtain ⟨-, hyields⟩ := pair_yields hc none root h
  obtain ⟨-, hyields'⟩ := pair_yields hc none root h'
  cases ho : (s.pair none root).1 with
  | some o =>
    have hsome := pair_isSome hc hf (hyields o ho) h'
    obtain ⟨o', ho'⟩ := Option.isSome_iff_exists.1 hsome
    rw [ho', (hyields o ho).unique (hyields' o' ho')]
  | none =>
    cases ho' : (s'.pair none root).1 with
    | none => rfl
    | some o' =>
      have hsome := pair_isSome hc hf (hyields' o' ho') h
      rw [ho] at hsome
      cases hsome

end Rerun.Site
