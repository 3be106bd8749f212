import Rerun.Proofs.Handle.Files
import Rerun.Proofs.Handle.LifeCycle
import Rerun.Proofs.Handle.Plain
import Rerun.Proofs.Machine.Rename
import Rerun.Proofs.Way

/-!
# One handle in two worlds

Take a handle of the builtin engine in two worlds that differ in what was done with other handles.
Its machine is the same but for its token, and it finds the same contents under it (`Twins`). Every
operation is answered alike in both, up to the numbers of tokens that were drawn since the worlds
parted, and leaves the handle alike (`Twins.perform`).
-/

namespace Rerun

/-! ## Calls in two worlds -/

namespace Instance

open Machine (underToken)

/-- A call of a machine of the builtin engine. -/
def plainRan (r : Ran Machine) : Ran Instance := ⟨r.result, r.deadline, plain r.machine⟩

/-- The calls of a machine and of its twin under another token come to the same, leave the worlds as
they are, and name no tokens but their own. -/
def RanAlike (context token : Nat) (host host' : Host) (a b : Ran Instance × Host) : Prop :=
  ∃ r : Ran Machine, a = (plainRan r, host) ∧ b = (plainRan (underToken token r), host') ∧
    r.machine.context = context ∧ r.result.retoken (fun _ => context) = r.result

variable {host host' : Host} {m : Machine} {token : Nat}

theorem RanAlike.atOnce (host host' : Host) (m : Machine) (token : Nat) (d : Deadline)
    {result : Result Unit} (h : ∀ f, result.retoken f = result) :
    RanAlike m.context token host host' ((plain m).atOnce d result, host)
      ((plain (m.withToken token)).atOnce d result, host') := by
  refine ⟨⟨result, d, m⟩, rfl, ?_, rfl, h _⟩
  unfold plainRan underToken
  rw [h]
  rfl

/-- A machine names its own token. -/
theorem renames_self (host : Host) (m : Machine) :
    Machine.Renames host.registry.resolve host.registry.resolve m.context m.context :=
  fun hash => Registry.resolve_rename rfl hash

section

variable (h : Machine.Renames host.registry.resolve host'.registry.resolve m.context token)

include h

theorem step_alike (count : Nat) (d : Deadline) :
    RanAlike m.context token host host' ((plain m).step host count d)
      ((plain (m.withToken token)).step host' count d) := by
  have hself := Machine.step_rename (renames_self host m) count d
  refine ⟨m.step host.registry.resolve count d, step_plain host count d m, ?_,
    Machine.step_context _ count d m, (congrArg Ran.result hself).symm⟩
  rw [step_plain, Machine.step_rename h]
  rfl

theorem stepUntilHostIo_alike (horizon : Nat) (d : Deadline) :
    RanAlike m.context token host host' ((plain m).stepUntilHostIo host horizon d)
      ((plain (m.withToken token)).stepUntilHostIo host' horizon d) := by
  have hplain : ∀ (host : Host) (m : Machine), (plain m).stepUntilHostIo host horizon d =
      (plainRan (m.stepUntilHostIo host.registry.resolve (d.remaining horizon + 1) d), host) :=
    fun _ _ => rfl
  have hself := Machine.stepUntilHostIo_rename (renames_self host m) (d.remaining horizon + 1) d
  refine ⟨_, hplain host m, ?_, Machine.stepUntilHostIo_context _ _ d m,
    (congrArg Ran.result hself).symm⟩
  rw [hplain, Machine.stepUntilHostIo_rename h]

theorem stepInChunks_alike (chunk fuel : Nat) (d : Deadline) :
    RanAlike m.context token host host' ((plain m).stepInChunks chunk fuel host d)
      ((plain (m.withToken token)).stepInChunks chunk fuel host' d) := by
  induction fuel generalizing d m with
  | zero => exact .atOnce host host' m token d fun _ => rfl
  | succ fuel ih =>
    rw [stepInChunks, stepInChunks, plain_status, plain_status, Machine.withToken_progress]
    split
    · exact .atOnce host host' m token d fun _ => rfl
    · split
      · exact .atOnce host host' m token d.tick fun _ => rfl
      · obtain ⟨r, hr, hr', hcontext, hnamed⟩ := step_alike h chunk d.tick
        rw [hr, hr']
        obtain ⟨result, d', m'⟩ := r
        cases result with
        | error f => exact ⟨⟨.error f, d', m'⟩, rfl, rfl, hcontext, hnamed⟩
        | ok u =>
          have hrest := ih (hcontext ▸ h) d'
          rw [hcontext] at hrest
          exact hrest

end

end Instance

/-! ## Files in two worlds -/

namespace Machine

variable {at_ : List String → Prop} {fs gs : Files} {path : String}

/-- What a machine takes over does not hang on its token. -/
theorem restore_withToken (hread : gs.read path = fs.read path) (m : Machine) (token : Nat) :
    (m.withToken token).restore gs path = (m.restore fs path).map (·.withToken token) := by
  unfold restore
  rw [hread]
  cases fs.read path with
  | error fault => rfl
  | ok bs =>
    dsimp only
    cases Snapshot.parse bs with
    | error complaint => rfl
    | ok s =>
      dsimp only
      show (if s.root = m.program.root then _ else _) = _
      split <;> rfl

/-- Neither does what it leaves. -/
theorem save_withToken (h : Files.Agree at_ fs gs) (hway : ∀ ns ∈ Path.way fs.current path, at_ ns)
    (m : Machine) (token : Nat) :
    (∃ e, m.save fs path = .error e ∧ (m.withToken token).save gs path = .error e) ∨
      ∃ fs' gs', m.save fs path = .ok fs' ∧ (m.withToken token).save gs path = .ok gs' ∧
        Files.Agree at_ fs' gs' := by
  have hsnapshot : (m.withToken token).snapshot = m.snapshot := rfl
  unfold save
  rw [hsnapshot]
  obtain ⟨f, hf, hg⟩ | ⟨fs', gs', hf, hg, hagree⟩ := h.write hway m.snapshot.write
  · rw [hf, hg]
    exact .inl ⟨_, rfl, rfl⟩
  · rw [hf, hg]
    exact .inr ⟨fs', gs', rfl, rfl, hagree⟩

end Machine

/-! ## Tokens that were drawn later -/

namespace Handle

/-- Tokens that were drawn after the last one all look alike. -/
def mask (last token : Nat) : Nat := min token (last + 1)

theorem mask_of_lt {last token : Nat} (h : last < token) : mask last token = last + 1 :=
  Nat.min_eq_right h

theorem mask_getD (last : Nat) (family : Option Nat) :
    mask last (family.getD 0) = (family.map (mask last)).getD 0 := by
  cases family with
  | none => exact Nat.min_eq_left (Nat.zero_le _)
  | some t => rfl

/-- An answer in which tokens that were drawn later look alike. -/
def Reply.masked (last : Nat) : Reply → Reply
  | .token t => .token (t.map (mask last))
  | r => r

/-- The end of an operation, with the tokens that were drawn later masked. -/
def maskedReply (last : Nat) (r : Result Reply) : Result Reply :=
  (r.retoken (mask last)).map (Reply.masked last)

/-! ## Twins -/

/-- A handle of the builtin engine as it is in two worlds. -/
inductive Twins (last : Nat) (r r' : Registry) : Handle → Handle → Prop where
  | gone (isFrozen : Bool) : Twins last r r' ⟨none, isFrozen, none⟩ ⟨none, isFrozen, none⟩
  | live {m : Machine} {family family' : Option Nat} (isFrozen : Bool)
      (context : m.context = family.getD 0)
      (found : r'.found? (family'.getD 0) = r.found? (family.getD 0))
      (alike : family'.map (mask last) = family.map (mask last))
      (drawn : ∀ t, family = some t → t ≤ r.lastToken)
      (drawn' : ∀ t, family' = some t → t ≤ r'.lastToken) :
      Twins last r r' (plain m isFrozen family)
        (plain (m.withToken (family'.getD 0)) isFrozen family')

/-- Twins stay twins as long as they find what they found. -/
theorem Twins.carried {last : Nat} {r r' r₁ r₁' : Registry} {h h' : Handle}
    (ht : Twins last r r' h h') (hfound : r₁.found? (h.family.getD 0) = r.found? (h.family.getD 0))
    (hfound' : r₁'.found? (h'.family.getD 0) = r'.found? (h'.family.getD 0))
    (hlast : r.lastToken ≤ r₁.lastToken) (hlast' : r'.lastToken ≤ r₁'.lastToken) :
    Twins last r₁ r₁' h h' := by
  cases ht with
  | gone isFrozen => exact .gone isFrozen
  | live isFrozen context found alike drawn drawn' =>
    exact .live isFrozen context (hfound'.trans (found.trans hfound.symm)) alike
      (fun t ht => Nat.le_trans (drawn t ht) hlast) fun t ht => Nat.le_trans (drawn' t ht) hlast'

/-- A handle that has a twin has a machine of the builtin engine, or none any more. -/
theorem Twins.builtin {last : Nat} {r r' : Registry} {h h' : Handle} (ht : Twins last r r' h h') :
    h.machine = none ∨ ∃ m, h.machine = some (.plain m) := by
  cases ht with
  | gone isFrozen => exact .inl rfl
  | live => exact .inr ⟨_, rfl⟩

/-- Two worlds have the same files at some places, and parted after a token was drawn. -/
structure Alike (last : Nat) (at_ : List String → Prop) (host host' : Host) : Prop where
  files : Files.Agree at_ host.files host'.files
  drawn : last ≤ host.registry.lastToken
  drawn' : last ≤ host'.registry.lastToken

/-- An operation ended alike in two worlds, and left them and the handle alike. -/
structure DoneAlike (last : Nat) (at_ : List String → Prop) (a b : Done) : Prop where
  reply : maskedReply last b.reply = maskedReply last a.reply
  worlds : Alike last at_ a.host b.host
  twins : Twins last a.host.registry b.host.registry a.handle b.handle

/-! ## Operations on twins -/

variable {last : Nat} {at_ : List String → Prop} {host host' : Host} {h h' : Handle}

/-- Both are answered alike, and nothing changes. -/
theorem DoneAlike.same (hw : Alike last at_ host host')
    (ht : Twins last host.registry host'.registry h h') {reply reply' : Result Reply}
    (hreply : maskedReply last reply' = maskedReply last reply) :
    DoneAlike last at_ ⟨reply, host, h⟩ ⟨reply', host', h'⟩ := ⟨hreply, hw, ht⟩

/-- What is named under either token looks alike. -/
theorem masked_retoken {α : Type} {t t' : Nat} (hmask : mask last t' = mask last t)
    {r : Result α} (hnamed : (r.retoken fun _ => t) = r) :
    Result.retoken (mask last) (r.retoken fun _ => t') = r.retoken (mask last) := by
  rw [Result.retoken_retoken, hmask, ← Result.retoken_retoken (fun _ => t), hnamed]

theorem watchedResult_retoken (d : Deadline) (f : Nat → Nat) (r : Result Unit) :
    watchedResult d (r.retoken f) = (watchedResult d r).retoken f := by
  unfold watchedResult
  cases r with
  | ok u =>
    cases d.isExpired <;> rfl
  | error e => rfl

section

variable {m : Machine} {family family' : Option Nat} (context : m.context = family.getD 0)
  (found : host'.registry.found? (family'.getD 0) = host.registry.found? (family.getD 0))
  (alike : family'.map (mask last) = family.map (mask last))
  (drawn : ∀ t, family = some t → t ≤ host.registry.lastToken)
  (drawn' : ∀ t, family' = some t → t ≤ host'.registry.lastToken)

include alike in
theorem mask_family : mask last (family'.getD 0) = mask last (family.getD 0) := by
  rw [mask_getD, mask_getD, alike]

include context found in
theorem renames_family :
    Machine.Renames host.registry.resolve host'.registry.resolve m.context (family'.getD 0) :=
  fun hash => Registry.resolve_rename (found.trans (by rw [context])) hash

include context found alike drawn drawn'

/-- A call that comes to the same with both machines ends alike for both handles. -/
theorem advance_twins (hw : Alike last at_ host host') (d : Deadline)
    {run run' : Deadline → Instance → Ran Instance × Host}
    (hrun : ∀ d, Instance.RanAlike m.context (family'.getD 0) host host' (run d (.plain m))
      (run' d (.plain (m.withToken (family'.getD 0))))) :
    DoneAlike last at_ (running ((plain m false family).advance host d run))
      (running ((plain (m.withToken (family'.getD 0)) false family').advance host' d run')) := by
  obtain ⟨r, hr, hr', hcontext, hnamed⟩ := hrun d.watched
  rw [advance_plain, advance_plain, hr, hr']
  refine ⟨?_, hw, ?_⟩
  · have hmask := mask_family alike
    rw [← context] at hmask
    have hresult : ∀ d : Deadline, Result.retoken (mask last)
        (watchedResult d (r.result.retoken fun _ => family'.getD 0)) =
          (watchedResult d r.result).retoken (mask last) := by
      intro d
      rw [watchedResult_retoken]
      refine masked_retoken hmask ?_
      rw [← watchedResult_retoken, hnamed]
    show Except.map _ (Result.retoken _ (Except.map _ (watchedResult _ _))) =
      Except.map _ (Result.retoken _ (Except.map _ (watchedResult _ _)))
    rw [Result.retoken_map, Result.retoken_map]
    exact congrArg (fun x : Result Unit => (x.map fun _ => Reply.done).map (Reply.masked last))
      (hresult _)
  · exact .live false (hcontext.trans context) found alike drawn drawn'

/-- A question to the machine that does not hang on its token. -/
theorem reading_twins (hw : Alike last at_ host host') (isFrozen : Bool) {f f' : Instance → Reply}
    (hf : (f' (.plain (m.withToken (family'.getD 0)))).masked last =
      (f (.plain m)).masked last) :
    DoneAlike last at_ ((plain m isFrozen family).reading host f)
      ((plain (m.withToken (family'.getD 0)) isFrozen family').reading host' f') := by
  refine .same hw (.live isFrozen context found alike drawn drawn') ?_
  exact congrArg Except.ok hf

/-- A change that commutes with the token. -/
theorem update_twins (hw : Alike last at_ host host') (change change' : Instance → Result Instance)
    (hchange : (∃ e, change (.plain m) = fail e ∧
        change' (.plain (m.withToken (family'.getD 0))) = fail e) ∨
      ∃ m', change (.plain m) = .ok (.plain m') ∧ m'.context = m.context ∧
        change' (.plain (m.withToken (family'.getD 0))) =
          .ok (.plain (m'.withToken (family'.getD 0)))) :
    DoneAlike last at_ ((plain m false family).changing host ((plain m false family).update change))
      ((plain (m.withToken (family'.getD 0)) false family').changing host'
        ((plain (m.withToken (family'.getD 0)) false family').update change')) := by
  have hupdate : ∀ (m : Machine) (family : Option Nat) (change : Instance → Result Instance),
      (plain m false family).update change =
        (change (.plain m)).map fun i => ⟨some i, false, family⟩ := by
    intro m family change
    show Except.bind _ _ = _
    cases change (.plain m) <;> rfl
  rw [hupdate, hupdate]
  obtain ⟨e, he, he'⟩ | ⟨m', hm, hcontext, hm'⟩ := hchange
  · rw [he, he']
    exact .same hw (.live false context found alike drawn drawn') rfl
  · rw [hm, hm']
    exact .same hw (.live false (hcontext.trans context) found alike drawn drawn') rfl

theorem save_twins (hw : Alike last at_ host host') (isFrozen : Bool) {path : String}
    (hway : ∀ ns ∈ Path.way host.files.current path, at_ ns) (horizon : Nat) :
    DoneAlike last at_ ((plain m isFrozen family).perform horizon host (.save path))
      ((plain (m.withToken (family'.getD 0)) isFrozen family').perform horizon host'
        (.save path)) := by
  have ht : Twins last host.registry host'.registry (plain m isFrozen family)
      (plain (m.withToken (family'.getD 0)) isFrozen family') :=
    .live isFrozen context found alike drawn drawn'
  unfold perform
  dsimp only
  rw [save_plain, save_plain]
  obtain ⟨e, he, he'⟩ | ⟨fs, gs, hf, hg, hagree⟩ :=
    Machine.save_withToken hw.files hway m (family'.getD 0)
  · rw [he, he']
    exact .same hw ht rfl
  · rw [hf, hg]
    exact ⟨rfl, ⟨hagree, hw.drawn, hw.drawn'⟩, ht⟩

omit context found alike in
theorem setResolver_twins (hw : Alike last at_ host host') (resolver : Resolver) (horizon : Nat) :
    DoneAlike last at_ ((plain m false family).perform horizon host (.setResolver resolver))
      ((plain (m.withToken (family'.getD 0)) false family').perform horizon host'
        (.setResolver resolver)) := by
  have hfound : ∀ (r : Registry) (family : Option Nat),
      (∀ t, family = some t → t ≤ r.lastToken) →
        (leave (r.register resolver).2 family).found? (r.lastToken + 1) = some resolver := by
    intro r family hdrawn
    have hentry : Registry.entry? (leave (r.register resolver).2 family) (r.lastToken + 1) =
        some ⟨resolver, 1⟩ := by
      cases family with
      | none =>
        show Registry.entry? (r.register resolver).2 _ = _
        rw [Registry.entry?_register, if_pos rfl]
      | some t =>
        have hne : r.lastToken + 1 ≠ t := by
          have := hdrawn t rfl
          omega
        show Registry.entry? ((r.register resolver).2.release t) _ = _
        rw [Registry.entry?_release, if_neg hne, Registry.entry?_register, if_pos rfl]
    unfold Registry.found?
    rw [hentry]
    rfl
  have hmask : mask last (host'.registry.lastToken + 1) =
      mask last (host.registry.lastToken + 1) := by
    rw [mask_of_lt (Nat.lt_succ_of_le hw.drawn), mask_of_lt (Nat.lt_succ_of_le hw.drawn')]
  have hset : ∀ (host : Host) (m : Machine) (family : Option Nat),
      (plain m false family).perform horizon host (.setResolver resolver) =
        ⟨.ok (.token (some (host.registry.lastToken + 1))),
          { host with registry := leave (host.registry.register resolver).2 family },
          plain (m.withToken (host.registry.lastToken + 1)) false
            (some (host.registry.lastToken + 1))⟩ := fun _ _ _ => rfl
  rw [hset, hset]
  refine ⟨?_, ⟨hw.files, ?_, ?_⟩, ?_⟩
  · exact congrArg (fun t => Except.ok (Reply.token (some t))) hmask
  · rw [leave_lastToken]
    exact Nat.le_succ_of_le hw.drawn
  · rw [leave_lastToken]
    exact Nat.le_succ_of_le hw.drawn'
  · refine @Twins.live _ _ _ (m.withToken _) (some _) (some _) false rfl ?_ ?_ ?_ ?_
    · exact (hfound _ _ drawn').trans (hfound _ _ drawn).symm
    · exact congrArg some hmask
    · rintro t ⟨⟩
      rw [leave_lastToken]
      exact Nat.le_refl _
    · rintro t ⟨⟩
      rw [leave_lastToken]
      exact Nat.le_refl _

end

/-! ## Any operation -/

/-- A handle that is gone in one world is gone in the other. -/
theorem perform_gone (hw : Alike last at_ host host') (horizon : Nat) (isFrozen : Bool) (op : Op) :
    DoneAlike last at_ ((⟨none, isFrozen, none⟩ : Handle).perform horizon host op)
      ((⟨none, isFrozen, none⟩ : Handle).perform horizon host' op) := by
  have ht : Twins last host.registry host'.registry ⟨none, isFrozen, none⟩
    ⟨none, isFrozen, none⟩ := .gone isFrozen
  cases hn : op.needsMachine with
  | true =>
    rw [perform_destroyed rfl horizon host hn, perform_destroyed rfl horizon host' hn]
    exact .same hw ht rfl
  | false =>
    cases op with
    | isDestroyed => exact .same hw ht rfl
    | describe id => exact .same hw ht rfl
    | _ => cases hn

/-- Every operation is answered alike in both worlds, and leaves the handle and the files that the
operation names alike. -/
theorem Twins.perform (ht : Twins last host.registry host'.registry h h')
    (hw : Alike last at_ host host') (horizon : Nat) {op : Op}
    (hpaths : ∀ path ∈ op.paths, ∀ ns ∈ Path.way host.files.current path, at_ ns) :
    DoneAlike last at_ (h.perform horizon host op) (h'.perform horizon host' op) := by
  cases ht with
  | gone isFrozen => exact perform_gone hw horizon isFrozen op
  | @live m family family' isFrozen context found alike drawn drawn' =>
    have ht : Twins last host.registry host'.registry (plain m isFrozen family)
        (plain (m.withToken (family'.getD 0)) isFrozen family') :=
      .live isFrozen context found alike drawn drawn'
    cases hmut : op.isMutation && isFrozen with
    | true =>
      obtain ⟨hop, rfl⟩ := Bool.and_eq_true_iff.mp hmut
      rw [perform_frozen rfl rfl horizon host hop, perform_frozen rfl rfl horizon host' hop]
      exact .same hw ht rfl
    | false =>
      have hrenames := renames_family context found
      have hreading : ∀ {f f' : Instance → Reply},
          (f' (.plain (m.withToken (family'.getD 0)))).masked last = (f (.plain m)).masked last →
            DoneAlike last at_ ((plain m isFrozen family).reading host f)
              ((plain (m.withToken (family'.getD 0)) isFrozen family').reading host' f') :=
        fun hf => reading_twins context found alike drawn drawn' hw isFrozen hf
      cases op with
      | step d count =>
        obtain rfl : isFrozen = false := by simpa [Op.isMutation] using hmut
        exact advance_twins context found alike drawn drawn' hw d fun d =>
          Instance.step_alike hrenames count.toNat d
      | stepInChunks d chunk =>
        obtain rfl : isFrozen = false := by simpa [Op.isMutation] using hmut
        show DoneAlike last at_ (running (Handle.stepInChunks host horizon d chunk _))
          (running (Handle.stepInChunks host' horizon d chunk _))
        unfold stepInChunks
        split
        · exact advance_twins context found alike drawn drawn' hw d fun d =>
            .atOnce host host' m _ d fun _ => rfl
        · exact advance_twins context found alike drawn drawn' hw d fun d =>
            Instance.stepInChunks_alike hrenames _ _ d
      | stepUntilHostIo d =>
        obtain rfl : isFrozen = false := by simpa [Op.isMutation] using hmut
        exact advance_twins context found alike drawn drawn' hw d fun d =>
          Instance.stepUntilHostIo_alike hrenames horizon d
      | token => exact hreading (congrArg Reply.token alike)
      | hash | root | global | steps | status | isRunning | isErrored | isFrozen | proof =>
        exact hreading rfl
      | validFor requested => exact hreading rfl
      | isDestroyed => exact .same hw ht rfl
      | describe id => exact .same hw ht rfl
      | setGlobal g =>
        obtain rfl : isFrozen = false := by simpa [Op.isMutation] using hmut
        exact update_twins context found alike drawn drawn' hw (fun i => .ok (i.setGlobal g))
          (fun i => .ok (i.setGlobal g)) (.inr ⟨m.setGlobal g, rfl, rfl, rfl⟩)
      | addMessage inbox msg =>
        obtain rfl : isFrozen = false := by simpa [Op.isMutation] using hmut
        exact update_twins context found alike drawn drawn' hw (·.addMessage inbox msg)
          (·.addMessage inbox msg) (.inr ⟨m.addMessage inbox msg, rfl, rfl, rfl⟩)
      | save path =>
        exact save_twins context found alike drawn drawn' hw isFrozen
          (hpaths path (List.mem_singleton_self path)) horizon
      | restore path =>
        obtain rfl : isFrozen = false := by simpa [Op.isMutation] using hmut
        have hread := hw.files.read_eq (hpaths path (List.mem_singleton_self path))
        have hrestore := Machine.restore_withToken hread m (family'.getD 0)
        have hplain : ∀ (host : Host) (m : Machine), (Instance.plain m).restore host path =
            (Instance.lift (m.restore host.files path)).map Instance.plain := by
          intro host m
          show Except.bind _ _ = _
          cases m.restore host.files path <;> rfl
        refine update_twins context found alike drawn drawn' hw (·.restore host path)
          (·.restore host' path) ?_
        rw [hplain, hplain, hrestore]
        cases hr : m.restore host.files path with
        | error e => exact .inl ⟨e, rfl, rfl⟩
        | ok m' => exact .inr ⟨m', rfl, Machine.restore_context hr, rfl⟩
      | setResolver resolver =>
        obtain rfl : isFrozen = false := by simpa [Op.isMutation] using hmut
        exact setResolver_twins drawn drawn' hw resolver horizon
      | freeze => exact ⟨rfl, hw, .live true context found alike drawn drawn'⟩
      | destroy =>
        refine ⟨rfl, ⟨hw.files, ?_, ?_⟩, .gone isFrozen⟩
        · show last ≤ (leave host.registry family).lastToken
          rw [leave_lastToken]
          exact hw.drawn
        · show last ≤ (leave host'.registry family').lastToken
          rw [leave_lastToken]
          exact hw.drawn'

end Handle

end Rerun
