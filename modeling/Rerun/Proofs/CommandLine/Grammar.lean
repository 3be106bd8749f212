import Rerun.CommandLine.Options
import Rerun.Proofs.Lookup

/-!
# The grammar of a command line

What a word means depends on the words before it: it is an option if it stands in option position,
and a value behind an option that takes one. Here the positions are told apart without any reading
(`Position`), and with them what stands where: an option (`AskedAt`), a value (`GivenAt`), a fault
(`FaultAt`). The first position that settles a line decides what it comes to, and a line that no
position settles asks for the last value of every option (`Reads`). So every line comes to one thing
at most (`Reads.unique`), and it is told from its positions alone whether that is an early end
(`Reads.ends_iff`) or a failure (`Reads.fails_iff`).
-/

namespace Rerun.CommandLine

variable {words : List String} {i n : Nat} {s t value : String} {v w : Word} {k : Key}
  {f : Fault} {o p : Options} {r q : Except Fault Request}

/-! ## Spellings -/

namespace Word

/-- The words that spell an option. What is unknown has no spelling. -/
def spellings : Word → List String
  | .help => ["-h", "--help"]
  | .version => ["-v", "--version"]
  | .list => ["-l", "--list"]
  | .key .config => ["-c", "--config"]
  | .key .engine => ["-e", "--engine"]
  | .key .validate => ["--validate"]
  | .key .root => ["--module-root"]
  | .unknown => []

theorem mem_table_iff : (s, w) ∈ table ↔ s ∈ w.spellings := by
  cases w with
  | key k => cases k <;> simp [table, spellings]
  | _ => simp [table, spellings]

theorem nodup_table : (table.map Prod.fst).Nodup := by decide

theorem ofText_of_mem (h : s ∈ w.spellings) : ofText s = w := by
  rw [ofText, Lookup.eq_some_of_mem nodup_table (mem_table_iff.2 h)]
  rfl

theorem mem_spellings (h : ofText s = w) (hw : w ≠ .unknown) : s ∈ w.spellings := by
  unfold ofText at h
  cases hs : table.lookup s with
  | none =>
    rw [hs] at h
    exact absurd h.symm hw
  | some v =>
    rw [hs] at h
    cases h
    exact mem_table_iff.1 (Lookup.mem_of_eq_some hs)

theorem ofText_eq_unknown_iff : ofText s = .unknown ↔ ∀ w : Word, s ∉ w.spellings := by
  constructor
  · intro h w hmem
    have hw := ofText_of_mem hmem
    rw [h] at hw
    subst hw
    exact List.not_mem_nil hmem
  · intro h
    by_cases hs : ofText s = .unknown
    · exact hs
    · exact absurd (mem_spellings rfl hs) (h _)

end Word

/-- The word spells an option that takes a value. -/
def TakesValue (s : String) : Prop := ∃ k, s ∈ (Word.key k).spellings

/-! ## Positions -/

/-- The positions in which an option may stand: the first, and with every word that stands in one
the position behind that word, or behind its value if it takes one. What the value looks like is of
no account. -/
inductive Position (words : List String) : Nat → Prop where
  | first : Position words 0
  | behindWord {i : Nat} {s : String} (h : Position words i) (hs : words[i]? = some s)
      (hvalue : ¬ TakesValue s) : Position words (i + 1)
  | behindValue {i : Nat} {s : String} (h : Position words i) (hs : words[i]? = some s)
      (hvalue : TakesValue s) : Position words (i + 2)

/-- A value does not stand in option position. -/
theorem not_position_of_value (hi : Position words i) (hs : words[i]? = some s)
    (hvalue : TakesValue s) : ¬ Position words (i + 1) := by
  intro h
  induction i generalizing s with
  | zero =>
    cases h with
    | behindWord _ ht hno =>
      cases hs.symm.trans ht
      exact hno hvalue
  | succ i ih =>
    cases h with
    | behindWord _ ht hno =>
      cases hs.symm.trans ht
      exact hno hvalue
    -- The option one word further to the front has `i + 1` as its value, which is a position.
    | behindValue h ht htakes => exact ih h ht htakes hi

/-- The word `s` stands in option position at `i`. -/
structure Stands (words : List String) (i : Nat) (s : String) : Prop where
  position : Position words i
  word : words[i]? = some s

/-- The option `w` stands at `i`. -/
def AskedAt (words : List String) (i : Nat) (w : Word) : Prop :=
  ∃ s, Stands words i s ∧ s ∈ w.spellings

/-- The option at `i` is `k`, and has the next word as its value. -/
def GivenAt (words : List String) (i : Nat) (k : Key) (value : String) : Prop :=
  AskedAt words i (.key k) ∧ words[i + 1]? = some value

/-- An option at `i` ends the reading. -/
def EndsAt (words : List String) (i : Nat) : Prop :=
  AskedAt words i .help ∨ AskedAt words i .version

/-- What is wrong with the option at `i`: it is unknown, it has no value, or it is a module root
that cannot be read. -/
inductive FaultAt (words : List String) (i : Nat) : Fault → Prop where
  | unknown {s : String} (h : Stands words i s) (hno : ∀ w : Word, s ∉ w.spellings) :
    FaultAt words i (.unknown s)
  | missingValue {s : String} (h : Stands words i s) (hs : TakesValue s)
      (hend : i + 1 = words.length) : FaultAt words i (.missingValue s)
  | badRoot {value : String} {fault : Digest.Fault} (h : GivenAt words i .root value)
      (hbad : Digest.parse value = .error fault) : FaultAt words i (.badRoot value fault)

theorem Stands.unique (h : Stands words i s) (h' : Stands words i t) : s = t :=
  Option.some.inj (h.word.symm.trans h'.word)

theorem Stands.lt (h : Stands words i s) : i < words.length :=
  (List.getElem?_eq_some_iff.1 h.word).1

theorem Stands.asked (h : Stands words i s) (hs : Word.ofText s = w) (hw : w ≠ .unknown) :
    AskedAt words i w := ⟨s, h, Word.mem_spellings hs hw⟩

/-- Where a word stands, the option is the one that it spells. -/
theorem Stands.ofText_eq (h : Stands words i s) (hw : AskedAt words i w) : Word.ofText s = w := by
  obtain ⟨t, ht, hmem⟩ := hw
  rw [h.unique ht]
  exact Word.ofText_of_mem hmem

theorem AskedAt.unique (h : AskedAt words i v) (h' : AskedAt words i w) : v = w := by
  obtain ⟨s, hs, hmem⟩ := h
  exact (Word.ofText_of_mem hmem).symm.trans (hs.ofText_eq h')

theorem AskedAt.position (h : AskedAt words i w) : Position words i := by
  obtain ⟨s, hs, -⟩ := h
  exact hs.position

theorem GivenAt.unique {u : String} (h : GivenAt words i k value) (h' : GivenAt words i k u) :
    value = u := Option.some.inj (h.2.symm.trans h'.2)

theorem GivenAt.lt (h : GivenAt words i k value) : i + 1 < words.length :=
  (List.getElem?_eq_some_iff.1 h.2).1

theorem FaultAt.stands (h : FaultAt words i f) : ∃ s, Stands words i s := by
  cases h with
  | unknown h | missingValue h => exact ⟨_, h⟩
  | badRoot h =>
    obtain ⟨⟨s, hs, -⟩, -⟩ := h
    exact ⟨s, hs⟩

/-! ## Positions that settle a line -/

/-- What a line comes to that is settled at `i`. -/
inductive SettledAt (words : List String) (i : Nat) : Except Fault Request → Prop where
  | help (h : AskedAt words i .help) : SettledAt words i (.ok .help)
  | version (h : AskedAt words i .version) : SettledAt words i (.ok .version)
  | fault {f : Fault} (h : FaultAt words i f) : SettledAt words i (.error f)

/-- No position before `n` settles the line. -/
def Unsettled (words : List String) (n : Nat) : Prop := ∀ i < n, ∀ r, ¬ SettledAt words i r

/-- What a word in option position settles, with the next word if there is one. -/
def settlement (s : String) (next : Option String) : Option (Except Fault Request) :=
  match Word.ofText s, next with
  | .help, _ => some (.ok .help)
  | .version, _ => some (.ok .version)
  | .list, _ => none
  | .unknown, _ => some (.error (.unknown s))
  | .key _, none => some (.error (.missingValue s))
  | .key .root, some value =>
    match Digest.parse value with
    | .ok _ => none
    | .error fault => some (.error (.badRoot value fault))
  | .key _, some _ => none

theorem SettledAt.stands (h : SettledAt words i r) : ∃ s, Stands words i s := by
  cases h with
  | help h | version h =>
    obtain ⟨s, hs, -⟩ := h
    exact ⟨s, hs⟩
  | fault h => exact h.stands

theorem SettledAt.position (h : SettledAt words i r) : Position words i := by
  obtain ⟨s, hs⟩ := h.stands
  exact hs.position

theorem SettledAt.lt (h : SettledAt words i r) : i < words.length := by
  obtain ⟨s, hs⟩ := h.stands
  exact hs.lt

theorem Stands.settlement_eq (hs : Stands words i s) (h : SettledAt words i r) :
    settlement s words[i + 1]? = some r := by
  unfold settlement
  cases h with
  | help h | version h => rw [hs.ofText_eq h]
  | fault h =>
    cases h with
    | unknown ht hno => rw [hs.unique ht, Word.ofText_eq_unknown_iff.2 hno]
    | missingValue ht hvalue hend =>
      obtain ⟨k, hk⟩ := hvalue
      rw [hs.unique ht, Word.ofText_of_mem hk, List.getElem?_eq_none (Nat.le_of_eq hend.symm)]
    | badRoot h hbad =>
      obtain ⟨hroot, hvalue⟩ := h
      rw [hs.ofText_eq hroot, hvalue]
      dsimp only
      rw [hbad]

theorem Stands.not_settledAt (hs : Stands words i s) (h : settlement s words[i + 1]? = none) (r) :
    ¬ SettledAt words i r := by
  intro hr
  cases h.symm.trans (hs.settlement_eq hr)

/-- A position settles a line in one way. -/
theorem SettledAt.unique (h : SettledAt words i r) (h' : SettledAt words i q) : r = q := by
  obtain ⟨s, hs⟩ := h.stands
  exact Option.some.inj ((hs.settlement_eq h).symm.trans (hs.settlement_eq h'))

theorem Unsettled.succ (h : Unsettled words n) (hn : ∀ r, ¬ SettledAt words n r) :
    Unsettled words (n + 1) := by
  intro i hi
  rcases Nat.lt_succ_iff_lt_or_eq.1 hi with hi | rfl
  · exact h i hi
  · exact hn

/-- What settles a line ends the reading or is at fault. -/
theorem SettledAt.endsAt_or_error (h : SettledAt words i r) :
    EndsAt words i ∨ ∃ f, r = .error f := by
  cases h with
  | help h => exact .inl (.inl h)
  | version h => exact .inl (.inr h)
  | fault => exact .inr ⟨_, rfl⟩

theorem EndsAt.exists_settledAt (h : EndsAt words i) :
    ∃ r, SettledAt words i r ∧ ∀ f, r ≠ .error f := by
  rcases h with h | h
  · exact ⟨_, .help h, nofun⟩
  · exact ⟨_, .version h, nofun⟩

/-- What is at fault does not end the reading. -/
theorem FaultAt.not_endsAt (h : FaultAt words i f) : ¬ EndsAt words i := by
  intro hends
  obtain ⟨r, hr, hne⟩ := hends.exists_settledAt
  exact hne f (hr.unique (.fault h))

theorem Unsettled.not_endsAt (h : Unsettled words n) (hi : i < n) : ¬ EndsAt words i := by
  intro hends
  obtain ⟨r, hr, -⟩ := hends.exists_settledAt
  exact h i hi r hr

theorem Unsettled.not_faultAt (h : Unsettled words n) (hi : i < n) : ¬ FaultAt words i f :=
  fun hf => h i hi _ (.fault hf)

/-! ## What is asked for -/

/-- The last value that is given for `k` before `n`. -/
def LastGiven (words : List String) (n : Nat) (k : Key) (value : String) : Prop :=
  ∃ i < n, GivenAt words i k value ∧ ∀ j < n, i < j → ∀ u, ¬ GivenAt words j k u

/-- What is asked for before `n`: of every option its last value, and the list of the module roots
if it is asked for anywhere. -/
structure Asks (words : List String) (n : Nat) (o : Options) : Prop where
  config : ∀ value, o.config = some value ↔ LastGiven words n .config value
  engine : ∀ value, o.engine = some value ↔ LastGiven words n .engine value
  validate : ∀ value, o.validate = some value ↔ LastGiven words n .validate value
  root : ∀ d, o.root = some d ↔ ∃ value, LastGiven words n .root value ∧ Digest.parse value = .ok d
  list : o.list = true ↔ ∃ i < n, AskedAt words i .list

theorem lastGiven_succ_of_given {u : String} (h : GivenAt words n k u) :
    LastGiven words (n + 1) k value ↔ value = u := by
  constructor
  · rintro ⟨i, hi, hgiven, hlast⟩
    rcases Nat.lt_succ_iff_lt_or_eq.1 hi with hi | rfl
    · exact absurd h (hlast n (Nat.lt_succ_self n) hi u)
    · exact hgiven.unique h
  · rintro rfl
    refine ⟨n, Nat.lt_succ_self n, h, fun j hj hlt => ?_⟩
    exact absurd hlt (Nat.not_lt.2 (Nat.le_of_lt_succ hj))

theorem lastGiven_succ_of_not_given (h : ∀ u, ¬ GivenAt words n k u) :
    LastGiven words (n + 1) k value ↔ LastGiven words n k value := by
  constructor
  · rintro ⟨i, hi, hgiven, hlast⟩
    rcases Nat.lt_succ_iff_lt_or_eq.1 hi with hi | rfl
    · exact ⟨i, hi, hgiven, fun j hj => hlast j (Nat.lt_succ_of_lt hj)⟩
    · exact absurd hgiven (h value)
  · rintro ⟨i, hi, hgiven, hlast⟩
    refine ⟨i, Nat.lt_succ_of_lt hi, hgiven, fun j hj hlt => ?_⟩
    rcases Nat.lt_succ_iff_lt_or_eq.1 hj with hj | rfl
    · exact hlast j hj hlt
    · exact h

/-- A value that is given for one option says nothing of the others. -/
theorem lastGiven_succ_of_other {l : Key} {u : String} (h : GivenAt words n k u) (hl : l ≠ k) :
    LastGiven words (n + 1) l value ↔ LastGiven words n l value :=
  lastGiven_succ_of_not_given fun _ hu => hl (Word.key.inj (hu.1.unique h.1))

theorem exists_lastGiven (hi : i < n) (h : GivenAt words i k value) :
    ∃ u, LastGiven words n k u := by
  induction n with
  | zero => exact absurd hi (Nat.not_lt_zero i)
  | succ n ih =>
    by_cases hn : ∃ u, GivenAt words n k u
    · obtain ⟨u, hu⟩ := hn
      exact ⟨u, (lastGiven_succ_of_given hu).2 rfl⟩
    · have hlt : i < n := by
        rcases Nat.lt_succ_iff_lt_or_eq.1 hi with hlt | rfl
        · exact hlt
        · exact absurd ⟨value, h⟩ hn
      obtain ⟨u, hu⟩ := ih hlt
      exact ⟨u, (lastGiven_succ_of_not_given (not_exists.1 hn)).2 hu⟩

/-- Where values are given, one is the last. -/
theorem exists_lastGiven_iff :
    (∃ u, LastGiven words words.length k u) ↔ ∃ i u, GivenAt words i k u := by
  constructor
  · rintro ⟨u, i, -, hgiven, -⟩
    exact ⟨i, u, hgiven⟩
  · rintro ⟨i, u, hgiven⟩
    exact exists_lastGiven (Nat.lt_of_succ_lt hgiven.lt) hgiven

theorem Asks.isSome_validate_iff (h : Asks words words.length o) :
    o.validate.isSome = true ↔ ∃ i u, GivenAt words i .validate u := by
  rw [Option.isSome_iff_exists, ← exists_lastGiven_iff]
  exact exists_congr h.validate

/-- Where no position settles the line, a module root that is given can be read. -/
theorem Asks.isSome_root_iff (h : Asks words words.length o)
    (hall : Unsettled words words.length) :
    o.root.isSome = true ↔ ∃ i u, GivenAt words i .root u := by
  rw [Option.isSome_iff_exists, ← exists_lastGiven_iff]
  constructor
  · rintro ⟨d, hd⟩
    obtain ⟨u, hu, -⟩ := (h.root d).1 hd
    exact ⟨u, hu⟩
  · rintro ⟨u, hu⟩
    cases hread : Digest.parse u with
    | ok d => exact ⟨d, (h.root d).2 ⟨u, hu, hread⟩⟩
    | error fault =>
      obtain ⟨i, hi, hgiven, -⟩ := hu
      exact absurd (.badRoot hgiven hread) (hall.not_faultAt hi)

/-- Only one thing is asked for. -/
theorem Asks.unique (h : Asks words n o) (h' : Asks words n p) : o = p := by
  have hconfig : o.config = p.config := Option.ext fun a => (h.config a).trans (h'.config a).symm
  have hengine : o.engine = p.engine := Option.ext fun a => (h.engine a).trans (h'.engine a).symm
  have hvalidate : o.validate = p.validate :=
    Option.ext fun a => (h.validate a).trans (h'.validate a).symm
  have hroot : o.root = p.root := Option.ext fun d => (h.root d).trans (h'.root d).symm
  have hlist : o.list = p.list := Bool.eq_iff_iff.2 (h.list.trans h'.list.symm)
  cases o
  cases p
  simp only at hconfig hengine hvalidate hroot hlist
  rw [hconfig, hengine, hvalidate, hroot, hlist]

/-! ## What a line comes to -/

/-- What a line comes to. The first position that settles it decides. If none does, it asks for what
its options ask for, and a module root asks for something to validate. -/
inductive Reads (words : List String) : Except Fault Request → Prop where
  | settled {i : Nat} {r : Except Fault Request} (h : SettledAt words i r)
      (hfirst : Unsettled words i) : Reads words r
  | rootAlone {i : Nat} {value : String} (hall : Unsettled words words.length)
      (hroot : GivenAt words i .root value) (hno : ∀ j u, ¬ GivenAt words j .validate u) :
    Reads words (.error .rootAlone)
  | run {o : Options} (hall : Unsettled words words.length) (ho : Asks words words.length o)
      (htogether : (∃ i value, GivenAt words i .root value) →
        ∃ i value, GivenAt words i .validate value) : Reads words (.ok (.run o))

/-- An option ends the reading, and nothing before it is at fault. -/
def Ends (words : List String) : Prop :=
  ∃ i, EndsAt words i ∧ ∀ j < i, ∀ f, ¬ FaultAt words j f

/-- An option is at fault, and none before it ends the reading; or none ends it, and a module root
is given without anything to validate. -/
def Fails (words : List String) : Prop :=
  (∃ i f, FaultAt words i f ∧ ∀ j < i, ¬ EndsAt words j) ∨
    (∀ i, ¬ EndsAt words i) ∧ (∃ i value, GivenAt words i .root value) ∧
      ∀ i value, ¬ GivenAt words i .validate value

theorem Reads.asks (h : Reads words (.ok (.run o))) : Asks words words.length o := by
  cases h with
  | settled hi => cases hi
  | run _ ho => exact ho

/-- Where a position could settle the line, one that is not behind it does. -/
theorem Reads.exists_settledAt (h : Reads words r) (hi : SettledAt words i q) :
    ∃ j ≤ i, SettledAt words j r := by
  cases h with
  | @settled j _ hj hfirst =>
    refine ⟨j, Nat.not_lt.1 fun hlt => ?_, hj⟩
    exact hfirst i hlt q hi
  | rootAlone hall | run hall => exact absurd hi (hall i hi.lt q)

/-- A line comes to one thing. -/
theorem Reads.unique (h : Reads words r) (h' : Reads words q) : r = q := by
  cases h with
  | @settled i _ hi hfirst =>
    obtain ⟨j, hj, hq⟩ := h'.exists_settledAt hi
    rcases Nat.lt_or_eq_of_le hj with hlt | rfl
    · exact absurd hq (hfirst j hlt q)
    · exact hi.unique hq
  | rootAlone hall hroot hno =>
    cases h' with
    | settled hi => exact absurd hi (hall _ hi.lt _)
    | rootAlone => rfl
    | run _ _ htogether =>
      obtain ⟨j, u, hu⟩ := htogether ⟨_, _, hroot⟩
      exact absurd hu (hno j u)
  | run hall ho htogether =>
    cases h' with
    | settled hi => exact absurd hi (hall _ hi.lt _)
    | rootAlone _ hroot hno =>
      obtain ⟨j, u, hu⟩ := htogether ⟨_, _, hroot⟩
      exact absurd hu (hno j u)
    | run _ hp => rw [ho.unique hp]

/-- The reading ends early where an option ends it. -/
theorem Reads.ends_iff (h : Reads words r) : r = .ok .help ∨ r = .ok .version ↔ Ends words := by
  constructor
  · intro hr
    cases h with
    | @settled i _ hi hfirst =>
      rcases hi.endsAt_or_error with hends | ⟨f, rfl⟩
      · exact ⟨i, hends, fun j hj f => hfirst.not_faultAt hj⟩
      · exact nomatch hr
    | rootAlone | run => exact nomatch hr
  · rintro ⟨i, hends, hno⟩
    obtain ⟨q, hq, -⟩ := hends.exists_settledAt
    obtain ⟨j, hj, hr⟩ := h.exists_settledAt hq
    cases hr with
    | help => exact .inl rfl
    | version => exact .inr rfl
    | fault hf =>
      rcases Nat.lt_or_eq_of_le hj with hlt | rfl
      · exact absurd hf (hno j hlt _)
      · exact absurd hends hf.not_endsAt

/-- The reading fails where an option is at fault, or the options do not go together. -/
theorem Reads.fails_iff (h : Reads words r) : (∃ f, r = .error f) ↔ Fails words := by
  constructor
  · rintro ⟨f, rfl⟩
    cases h with
    | @settled i _ hi hfirst =>
      cases hi with
      | fault hf => exact .inl ⟨i, f, hf, fun j hj => hfirst.not_endsAt hj⟩
    | rootAlone hall hroot hno =>
      refine .inr ⟨fun i hends => ?_, ⟨_, _, hroot⟩, hno⟩
      obtain ⟨q, hq, -⟩ := hends.exists_settledAt
      exact hall i hq.lt q hq
  · rintro (⟨i, f, hf, hno⟩ | ⟨hno, hroot, hvalidate⟩)
    · have hnot : ∀ j ≤ i, ¬ EndsAt words j := by
        intro j hj
        rcases Nat.lt_or_eq_of_le hj with hlt | rfl
        · exact hno j hlt
        · exact hf.not_endsAt
      obtain ⟨j, hj, hr⟩ := h.exists_settledAt (.fault hf)
      exact hr.endsAt_or_error.resolve_left (hnot j hj)
    · cases h with
      | settled hi => exact hi.endsAt_or_error.resolve_left (hno _)
      | rootAlone => exact ⟨_, rfl⟩
      | run _ _ htogether =>
        obtain ⟨j, u, hu⟩ := htogether hroot
        exact absurd hu (hvalidate j u)

end Rerun.CommandLine
