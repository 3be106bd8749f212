import Rerun.Proofs.Site.Course

/-!
# What becomes of a build

A build in flight goes on, fails and leaves nothing behind, takes over a snapshot, or arrives
(`Turn.fate`). Only a build that arrives writes a file (`Turn.writes`). From this follows what a
whole history leaves of a build that fails in it (`forgotten_run`), and what becomes of a build in a
history in which no other one goes on (`fate_run`).
-/

namespace Rerun.Site

open MachinePair (firstWalk frozen beginning)

variable {s₀ s s' : Site} {root : Digest} {n : Nat} {event : Event}

/-! ## What becomes of a build -/

/-- What becomes of a build in flight when an event happens. -/
inductive Fate (s₀ s s' : Site) (n : Nat) (root : Digest) : Prop where
  | goesOn (inFlight : s'.depot.cache.IsInFlight n root)
  /-- It fails, or is given up. -/
  | failed (reason : String)
      (told : s'.depot.cache.answer? (.build n) = some (.error (.buildFailed root reason)))
      (files : s'.host.files = s.host.files) (forgotten : s'.depot.cache.entry? root = none)
  /-- It takes over a snapshot. -/
  | restored {pair : MachinePair} (told : s'.depot.cache.answer? (.build n) = some (.ok pair))
      (files : s'.host.files = s.host.files)
      (begins : beginning s.backend.name s.depot.files (s.depot.locator.machinePath root) root
        s.openDeadline s.host.files = .ended (.ok pair))
  /-- It gets to the end of the way, and leaves a snapshot if it can. -/
  | arrived {p : Program} {m : Machine} (isRoot : p.root = root)
      (told : s'.depot.cache.answer? (.build n) = some (.ok (frozen p m)))
      (hasTo : s₀.HasToWalk p) (ahead : (Machine.ofProgram p).Ahead m)
      (saved : m.save s.host.files (s.snapshotPath root) = .ok s'.host.files ∨
        (∃ e, m.save s.host.files (s.snapshotPath root) = .error e) ∧
          s'.host.files = s.host.files)

section Finish

variable {k looks : Nat} {root' : Digest} {outcome : Except Error MachinePair}

theorem told_finishBuild (hn : s.depot.cache.IsInFlight n root) :
    (s.finishBuild n looks outcome).depot.cache.answer? (.build n) = some outcome :=
  Cache.answer?_build ((builds_finishBuild hn looks n).trans (if_pos rfl))

theorem forgotten_finishBuild (hn : s.depot.cache.IsInFlight n root) {e : Error} :
    (s.finishBuild n looks (.error e)).depot.cache.entry? root = none :=
  (entry?_finishBuild hn looks root).trans (if_pos rfl)

theorem inFlight_finishBuild (hn : s.depot.cache.IsInFlight n root) (hk : n ≠ k)
    (hb : s.depot.cache.IsInFlight k root') :
    (s.finishBuild k looks outcome).depot.cache.IsInFlight n root :=
  (builds_finishBuild hb looks n).trans ((if_neg hk).trans hn)

end Finish

theorem Turn.fate (ht : Turn s₀ s event s') (h : Orderly s₀ s)
    (hn : s.depot.cache.IsInFlight n root) : Fate s₀ s s' n root := by
  have hfailed : ∀ {k r} (hb : s.depot.cache.IsInFlight k r) (looks : Nat) (reason : String),
      Fate s₀ s (s.finishBuild k looks (.error (.buildFailed r reason))) n root := by
    intro k r hb looks reason
    by_cases hk : n = k
    · subst hk
      obtain rfl := hn.root_eq hb
      exact .failed reason (told_finishBuild hn) rfl (forgotten_finishBuild hn)
    · exact .goesOn (inFlight_finishBuild hn hk hb)
  cases ht with
  | still idle => exact .goesOn hn
  | asked r => exact .goesOn (Cache.getElem?_request hn r)
  | began => exact .goesOn hn
  | went => exact .goesOn hn
  | @restored k r p m waiting isOpen begins =>
    have hb := (waiting?_eq_some waiting).1
    by_cases hk : n = k
    · subst hk
      obtain rfl := hn.root_eq hb
      exact .restored (told_finishBuild hn) rfl begins
    · exact .goesOn (inFlight_finishBuild hn hk hb)
  | refused waiting => exact hfailed (waiting?_eq_some waiting).1 0 _
  | @arrived pause k looks p m m' d files walk ahead waits saved =>
    obtain ⟨hb, hp, ha⟩ := h.walk_inFlight walk
    by_cases hk : n = k
    · subst hk
      obtain rfl := hn.root_eq hb
      refine .arrived rfl ?_ hp (ha.trans ahead) saved
      exact @told_finishBuild { s with host := { s.host with files } } p.root n looks _ hb
    · exact .goesOn (@inFlight_finishBuild { s with host := { s.host with files } }
        root n k looks p.root _ hn hk hb)
  | stopped walk => exact hfailed (h.walk_inFlight walk).1 _ _
  | @dropped k r waiting =>
    have hb := (waiting?_eq_some waiting).1
    have hcache := h.cache.drop_inFlight hb
    by_cases hk : n = k
    · subst hk
      obtain rfl := hn.root_eq hb
      refine .failed "machine build aborted" ?_ rfl ?_
      · refine @Cache.answer?_build _ _ n ⟨root, .dropped⟩ ?_
        show (s.depot.cache.drop n).builds[n]? = _
        rw [hcache, Cache.getElem?_settled hb, if_pos rfl]
      · show Cache.entry? (s.depot.cache.drop n) root = none
        rw [hcache, Cache.entry?_settled, if_pos rfl]
        rfl
    · refine .goesOn ?_
      show (s.depot.cache.drop k).builds[n]? = _
      rw [hcache, Cache.getElem?_settled hb, if_neg hk, hn]
  | closed =>
    obtain ⟨hclosed, haborted⟩ := h.close
    by_cases hmem : n ∈ s.depot.walks.map Prod.fst
    · obtain ⟨x, hx, rfl⟩ := List.mem_map.1 hmem
      have hb := (h.walks x.1 x.2 (Lookup.eq_some_of_mem h.distinct hx)).2
      obtain rfl := hn.root_eq hb
      obtain ⟨e, he⟩ := haborted.failed x hx
      obtain ⟨reason, rfl⟩ := hclosed.failures x.1 x.2.root e he
      exact .failed reason (Cache.answer?_build he) (congrArg Host.files haborted.host)
        (haborted.left x hx)
    · exact .goesOn ((haborted.others n hmem).trans hn)

/-- A module root that nothing is known of stays unknown until someone asks for it. -/
theorem Turn.unknown_stays (ht : Turn s₀ s event s') (h : Orderly s₀ s)
    (he : s.depot.cache.entry? root = none) (hask : event ≠ .ask root) :
    s'.depot.cache.entry? root = none := by
  have hother : ∀ {k r}, s.depot.cache.IsInFlight k r → root ≠ r := by
    rintro k r hb rfl
    cases he.symm.trans (h.cache.entry?_inFlight hb)
  have hfinish : ∀ {k r} (hb : s.depot.cache.IsInFlight k r) (host : Host) (looks : Nat)
      (outcome : Except Error MachinePair),
        ({ s with host }.finishBuild k looks outcome).depot.cache.entry? root = none := by
    intro k r hb host looks outcome
    rw [@entry?_finishBuild { s with host } r k _ hb, if_neg (hother hb), he]
  cases ht with
  | still idle => exact he
  | asked r =>
    have hne : root ≠ r := by
      rintro rfl
      exact hask rfl
    show Cache.entry? (s.depot.cache.request r).2 root = none
    cases hr : s.depot.cache.entry? r with
    | some e =>
      obtain ⟨-, hentries, -⟩ := Cache.request_known hr
      unfold Cache.entry? at he ⊢
      rw [hentries, he]
    | none => rw [Cache.request_new hr, Cache.entry?_started, if_neg hne, he]
  | began => exact he
  | went => exact he
  | restored waiting => exact hfinish (waiting?_eq_some waiting).1 s.host _ _
  | refused waiting => exact hfinish (waiting?_eq_some waiting).1 s.host _ _
  | arrived walk => exact hfinish (h.walk_inFlight walk).1 _ _ _
  | stopped walk => exact hfinish (h.walk_inFlight walk).1 s.host _ _
  | @dropped k r waiting =>
    have hb := (waiting?_eq_some waiting).1
    show Cache.entry? (s.depot.cache.drop k) root = none
    rw [h.cache.drop_inFlight hb, Cache.entry?_settled, if_neg (hother hb), he]
  | closed => exact h.close.2.gone root he

/-- Files are written by a build that arrives, and then it is its snapshot. -/
theorem Turn.writes (ht : Turn s₀ s event s') (h : Orderly s₀ s)
    (hf : s'.host.files ≠ s.host.files) :
    ∃ pause n p m, event = .goOn pause n ∧ s.depot.cache.IsInFlight n p.root ∧
      s'.depot.cache.answer? (.build n) = some (.ok (frozen p m)) ∧
      m.save s.host.files (s.snapshotPath p.root) = .ok s'.host.files := by
  cases ht with
  | still | asked | began | restored | refused | went | stopped | dropped => exact absurd rfl hf
  | closed => exact absurd (congrArg Host.files h.close.2.host) hf
  | @arrived pause k looks p m m' d files walk ahead waits saved =>
    have hb := (h.walk_inFlight walk).1
    obtain hsave | ⟨-, rfl⟩ := saved
    · exact ⟨pause, k, p, m', rfl, hb,
        @told_finishBuild { s with host := { s.host with files } } p.root k looks _ hb, hsave⟩
    · exact absurd rfl hf

/-! ## Whole histories -/

theorem unknown_run (hr : s₀.backend.IsReference) (h : Orderly s₀ s)
    (he : s.depot.cache.entry? root = none) {events : List Event}
    (hasks : ∀ event ∈ events, event ≠ .ask root) :
    (s.run events).depot.cache.entry? root = none := by
  induction events generalizing s with
  | nil => exact he
  | cons event events ih =>
    have hstep := (step_turn hr h event).unknown_stays h he (hasks event (.head _))
    exact ih (h.step hr event) hstep fun x hx => hasks x (.tail _ hx)

/-- Nothing is known of a module root, once its build failed, until someone asks for it again. -/
theorem forgotten_run (hr : s₀.backend.IsReference) (h : Orderly s₀ s)
    (hn : s.depot.cache.IsInFlight n root) {events : List Event}
    (hasks : ∀ event ∈ events, event ≠ .ask root) {e : Error}
    (ha : (s.run events).depot.cache.answer? (.build n) = some (.error e)) :
    (∃ reason, e = .buildFailed root reason) ∧
      (s.run events).depot.cache.entry? root = none := by
  induction events generalizing s with
  | nil =>
    rw [show s.run [] = s from rfl, hn.answer?_eq] at ha
    cases ha
  | cons event events ih =>
    have hnext := h.step hr event
    have hrest : ∀ event ∈ events, event ≠ .ask root := fun x hx => hasks x (.tail _ hx)
    have hlater : ∀ {o}, (s.step event).depot.cache.answer? (.build n) = some o →
        o = .error e := by
      intro o ho
      have hend := (run_grows hr hnext events).answer? ho
      exact Option.some.inj (hend.symm.trans ha)
    cases (step_turn hr h event).fate h hn with
    | goesOn inFlight => exact ih hnext inFlight hrest ha
    | failed reason told files forgotten =>
      have he := hlater told
      cases he
      exact ⟨⟨reason, rfl⟩, unknown_run hr hnext forgotten hrest⟩
    | restored told =>
      have he := hlater told
      cases he
    | arrived isRoot told =>
      have he := hlater told
      cases he

/-- No build but one goes on in a history. -/
def OnlyGoesOn (n : Nat) (events : List Event) : Prop :=
  ∀ pause k, Event.goOn pause k ∈ events → k = n

/-- Nothing is written any more once that build is over. -/
theorem files_run (hr : s₀.backend.IsReference) (h : Orderly s₀ s) {events : List Event}
    (honly : OnlyGoesOn n events) {o : Except Error MachinePair}
    (ha : s.depot.cache.answer? (.build n) = some o) :
    (s.run events).host.files = s.host.files := by
  induction events generalizing s with
  | nil => rfl
  | cons event events ih =>
    have ht := step_turn hr h event
    have hrest : OnlyGoesOn n events := fun pause k hk => honly pause k (.tail _ hk)
    refine (ih (h.step hr event) hrest ((ht.grows h).answer? ha)).trans ?_
    by_contra hwrites
    obtain ⟨pause, k, p, m, rfl, hb, -⟩ := ht.writes h hwrites
    obtain rfl := honly pause k (.head _)
    cases hb.answer?_eq.symm.trans ha

/-- The fate of a build in a history in which no other one goes on and nobody asks for its root is
the same as in one event. -/
theorem fate_run (hr : s₀.backend.IsReference) (h : Orderly s₀ s)
    (hn : s.depot.cache.IsInFlight n root) {events : List Event} (honly : OnlyGoesOn n events)
    (hasks : ∀ event ∈ events, event ≠ .ask root) : Fate s₀ s (s.run events) n root := by
  induction events generalizing s with
  | nil => exact .goesOn hn
  | cons event events ih =>
    have hnext := h.step hr event
    have ht := step_turn hr h event
    have honly' : OnlyGoesOn n events := fun pause k hk => honly pause k (.tail _ hk)
    have hasks' : ∀ event ∈ events, event ≠ .ask root := fun x hx => hasks x (.tail _ hx)
    have hkept := run_grows hr hnext events
    have hquiet := fun {o} => files_run (o := o) hr hnext honly'
    cases ht.fate h hn with
    | goesOn inFlight =>
      have hfiles : (s.step event).host.files = s.host.files := by
        by_contra hwrites
        obtain ⟨pause, k, p, m, rfl, -, htold, -⟩ := ht.writes h hwrites
        obtain rfl := honly pause k (.head _)
        cases inFlight.answer?_eq.symm.trans htold
      cases ih hnext inFlight honly' hasks' with
      | goesOn inFlight => exact .goesOn inFlight
      | failed reason told files forgotten =>
        exact .failed reason told (files.trans hfiles) forgotten
      | restored told files begins =>
        refine .restored told (files.trans hfiles) ?_
        rw [hnext.backend, hnext.names, hnext.locator, hnext.openDeadline_eq, hfiles] at begins
        rwa [h.backend, h.names, h.locator, h.openDeadline_eq]
      | arrived isRoot told hasTo ahead saved =>
        refine .arrived isRoot told hasTo ahead ?_
        rwa [hfiles, (hnext.paths root).2, ← (h.paths root).2] at saved
    | failed reason told files forgotten =>
      exact .failed reason (hkept.answer? told) ((hquiet told).trans files)
        (unknown_run hr hnext forgotten hasks')
    | restored told files begins =>
      exact .restored (hkept.answer? told) ((hquiet told).trans files) begins
    | arrived isRoot told hasTo ahead saved =>
      refine .arrived isRoot (hkept.answer? told) hasTo ahead ?_
      rwa [← hquiet told] at saved

end Rerun.Site
