import Rerun.Proofs.CommandLine.Grammar

/-!
# Reading a command line

The reader keeps to the grammar (`read_by_grammar`). It always is at a position where an option may
stand, nothing before that position settles the line, and what it holds is what is asked for before
it (`Reached`). A word that asks for the list and an option with its value keep this up; any other
word settles the line, and its end leaves the options to be checked against each other.
-/

namespace Rerun.CommandLine

variable {words rest : List String} {i n : Nat} {s value : String} {k : Key} {f : Fault}
  {o p : Options}

/-! ## Setting options -/

theorem Options.set_root_eq_ok_iff : o.set .root value = .ok p ↔
    ∃ d, Digest.parse value = .ok d ∧ { o with root := some d } = p := by
  unfold Options.set
  cases Digest.parse value <;> simp

theorem Options.set_eq_error_iff : o.set k value = .error f ↔
    k = .root ∧ ∃ fault, Digest.parse value = .error fault ∧ .badRoot value fault = f := by
  unfold Options.set
  cases k with
  | root => cases Digest.parse value <;> simp
  | _ => simp

theorem asks_zero : Asks words 0 {} := by
  constructor <;> simp [LastGiven]

/-- Where no value is given, only the list may be asked for. -/
theorem Asks.succ_of_not_given {b : Bool} (h : Asks words n o)
    (hn : ∀ k u, ¬ GivenAt words n k u) (hb : b = true ↔ o.list = true ∨ AskedAt words n .list) :
    Asks words (n + 1) { o with list := b } := by
  constructor
  · simpa only [lastGiven_succ_of_not_given (hn _)] using h.config
  · simpa only [lastGiven_succ_of_not_given (hn _)] using h.engine
  · simpa only [lastGiven_succ_of_not_given (hn _)] using h.validate
  · simpa only [lastGiven_succ_of_not_given (hn _)] using h.root
  · rw [Nat.exists_lt_succ_right, ← h.list]
    exact hb

theorem Asks.of_not_position (h : Asks words n o) (hn : ¬ Position words n) :
    Asks words (n + 1) o :=
  h.succ_of_not_given (fun _ _ hu => hn hu.1.position)
    (or_iff_left fun hlist => hn hlist.position).symm

theorem Asks.of_list (h : Asks words n o) (hn : AskedAt words n .list) :
    Asks words (n + 1) { o with list := true } :=
  h.succ_of_not_given (fun _ _ hu => nomatch hn.unique hu.1) (iff_of_true rfl (.inr hn))

/-- The value that is given takes the place of the one before, and the other options stay. -/
theorem Asks.of_given (h : Asks words n o) (hn : GivenAt words n k value)
    (hset : o.set k value = .ok p) : Asks words (n + 1) p := by
  have hkeep : ∀ l ≠ k, ∀ {held : Option String}, (∀ u, held = some u ↔ LastGiven words n l u) →
      ∀ u, held = some u ↔ LastGiven words (n + 1) l u :=
    fun l hl _ hheld u => (hheld u).trans (lastGiven_succ_of_other hn hl).symm
  have hroot : .root ≠ k → ∀ d, o.root = some d ↔
      ∃ u, LastGiven words (n + 1) .root u ∧ Digest.parse u = .ok d :=
    fun hk d => by simpa only [lastGiven_succ_of_other hn hk] using h.root d
  have hself : ∀ u, some value = some u ↔ LastGiven words (n + 1) k u :=
    fun u => by rw [lastGiven_succ_of_given hn, Option.some_inj, eq_comm]
  have hlist : o.list = true ↔ ∃ i < n + 1, AskedAt words i .list := by
    rw [Nat.exists_lt_succ_right, ← h.list]
    exact (or_iff_left fun hlist => nomatch hlist.unique hn.1).symm
  cases k with
  | config =>
    cases hset
    exact ⟨hself, hkeep .engine nofun h.engine, hkeep .validate nofun h.validate,
      hroot nofun, hlist⟩
  | engine =>
    cases hset
    exact ⟨hkeep .config nofun h.config, hself, hkeep .validate nofun h.validate,
      hroot nofun, hlist⟩
  | validate =>
    cases hset
    exact ⟨hkeep .config nofun h.config, hkeep .engine nofun h.engine, hself, hroot nofun, hlist⟩
  | root =>
    obtain ⟨d, hd, rfl⟩ := Options.set_root_eq_ok_iff.1 hset
    refine ⟨hkeep .config nofun h.config, hkeep .engine nofun h.engine,
      hkeep .validate nofun h.validate, fun e => ?_, hlist⟩
    simp only [lastGiven_succ_of_given hn, exists_eq_left, hd, Except.ok.injEq, Option.some_inj]

/-! ## Reading on -/

/-- What the reader has behind it when it has reached position `i` with the options `o`. -/
structure Reached (words : List String) (i : Nat) (o : Options) : Prop where
  position : Position words i
  le : i ≤ words.length
  unsettled : Unsettled words i
  asks : Asks words i o

theorem reached_zero : Reached words 0 {} :=
  ⟨.first, Nat.zero_le _, fun _ hi => absurd hi (Nat.not_lt_zero _), asks_zero⟩

theorem word_of_drop (h : words.drop i = s :: rest) :
    words[i]? = some s ∧ words.drop (i + 1) = rest := by
  rw [← List.head?_drop, ← List.tail_drop, h]
  exact ⟨rfl, rfl⟩

theorem Reached.stands (h : Reached words i o) (hrest : words.drop i = s :: rest) :
    Stands words i s := ⟨h.position, (word_of_drop hrest).1⟩

/-- The reader goes on behind a word that asks for the list. -/
theorem Reached.list (h : Reached words i o) (hlist : AskedAt words i .list) :
    Reached words (i + 1) { o with list := true } := by
  have ⟨s, hs, hmem⟩ := hlist
  have hvalue : ¬ TakesValue s := by
    rintro ⟨k, hk⟩
    cases hlist.unique ⟨s, hs, hk⟩
  have hno : settlement s words[i + 1]? = none := by
    unfold settlement
    rw [Word.ofText_of_mem hmem]
  exact ⟨.behindWord h.position hs.word hvalue, hs.lt, h.unsettled.succ (hs.not_settledAt hno),
    h.asks.of_list hlist⟩

/-- The reader goes on behind the value of an option. -/
theorem Reached.given (h : Reached words i o) (hgiven : GivenAt words i k value)
    (hset : o.set k value = .ok p) : Reached words (i + 2) p := by
  have ⟨⟨s, hs, hmem⟩, hvalue⟩ := hgiven
  have hbehind : ¬ Position words (i + 1) := not_position_of_value h.position hs.word ⟨k, hmem⟩
  have hno : settlement s words[i + 1]? = none := by
    unfold settlement
    rw [Word.ofText_of_mem hmem, hvalue]
    cases k with
    | root =>
      obtain ⟨d, hd, -⟩ := Options.set_root_eq_ok_iff.1 hset
      dsimp only
      rw [hd]
    | _ => rfl
  refine ⟨.behindValue h.position hs.word ⟨k, hmem⟩, hgiven.lt, ?_,
    (h.asks.of_given hgiven hset).of_not_position hbehind⟩
  exact (h.unsettled.succ (hs.not_settledAt hno)).succ fun _ hr => hbehind hr.position

/-- What the reader comes to at the end of the line. -/
theorem Reached.reads_check (h : Reached words words.length o) : Reads words o.check := by
  have hroot := h.asks.isSome_root_iff h.unsettled
  have hvalidate := h.asks.isSome_validate_iff
  unfold Options.check
  split
  case isTrue hcheck =>
    obtain ⟨hsome, hnone⟩ := Bool.and_eq_true_iff.1 hcheck
    obtain ⟨i, value, hgiven⟩ := hroot.1 hsome
    refine .rootAlone h.unsettled hgiven fun j u hu => ?_
    rw [Option.isNone_iff_eq_none.1 hnone] at hvalidate
    exact Bool.noConfusion (hvalidate.2 ⟨j, u, hu⟩)
  case isFalse hcheck =>
    refine .run h.unsettled h.asks fun hgiven => hvalidate.1 ?_
    rw [hroot.2 hgiven, Bool.true_and, Bool.not_eq_true] at hcheck
    exact Option.isNone_eq_false_iff.1 hcheck

/-- What the reader comes to from a position that it has reached. -/
theorem Reached.reads (h : Reached words i o) (hrest : words.drop i = rest) :
    Reads words (o.read rest) := by
  fun_induction Options.read o rest generalizing i with
  | case1 o =>
    have hend : i = words.length := Nat.le_antisymm h.le (List.drop_eq_nil_iff.1 hrest)
    subst hend
    exact h.reads_check
  | case2 o s rest hs =>
    exact .settled (.help ((h.stands hrest).asked hs nofun)) h.unsettled
  | case3 o s rest hs =>
    exact .settled (.version ((h.stands hrest).asked hs nofun)) h.unsettled
  | case4 o s rest hs ih =>
    exact ih (h.list ((h.stands hrest).asked hs nofun)) (word_of_drop hrest).2
  | case5 o s rest hs =>
    have hno := Word.ofText_eq_unknown_iff.1 hs
    exact .settled (.fault (.unknown (h.stands hrest) hno)) h.unsettled
  | case6 o s k hs =>
    have hstands := h.stands hrest
    have hend : i + 1 = words.length :=
      Nat.le_antisymm hstands.lt (List.drop_eq_nil_iff.1 (word_of_drop hrest).2)
    have hvalue : TakesValue s := ⟨k, Word.mem_spellings hs nofun⟩
    exact .settled (.fault (.missingValue hstands hvalue hend)) h.unsettled
  | case7 o s k hs value rest p hset ih =>
    obtain ⟨hvalue, hbehind⟩ := word_of_drop (word_of_drop hrest).2
    exact ih (h.given ⟨(h.stands hrest).asked hs nofun, hvalue⟩ hset) hbehind
  | case8 o s k hs value rest f hset =>
    obtain ⟨hvalue, -⟩ := word_of_drop (word_of_drop hrest).2
    obtain ⟨rfl, fault, hbad, rfl⟩ := Options.set_eq_error_iff.1 hset
    have hgiven : GivenAt words i .root value := ⟨(h.stands hrest).asked hs nofun, hvalue⟩
    exact .settled (.fault (.badRoot hgiven hbad)) h.unsettled

theorem reads_ofWords (words : List String) : Reads words (Request.ofWords words) :=
  reached_zero.reads List.drop_zero

/-! ## One grammar -/

/-- Every line is read by one grammar, which tells by their positions what is an option and what is
a value. What a line comes to is what the grammar says, and nothing else. The reading ends early
exactly if an option ends it before anything is at fault. It fails exactly if an option is at fault
before one ends it, or none ends it and a module root is given without anything to validate.
Otherwise, and only then, it comes to the last value of every option, and to the list if that is
asked for. -/
theorem read_by_grammar (words : List String) :
    let read := Request.ofWords words
    (∀ r, read = r ↔ Reads words r) ∧
      (read = .ok .help ∨ read = .ok .version ↔ Ends words) ∧
      ((∃ f, read = .error f) ↔ Fails words) ∧
      (¬ (Ends words ∨ Fails words) ↔
        ∃ o, read = .ok (.run o) ∧ Asks words words.length o) := by
  intro read
  have hread : Reads words read := reads_ofWords words
  rw [← hread.ends_iff, ← hread.fails_iff]
  refine ⟨fun r => ⟨fun h => h ▸ hread, hread.unique⟩, Iff.rfl, Iff.rfl, ?_⟩
  rcases read with f | (o | _ | _)
  · simp
  · simpa using hread.asks
  · simp
  · simp

/-- What looks like an option is a value behind an option that takes one, and of two values the last
counts. -/
example : Request.ofWords ["-c", "--help", "-l", "-c", "node.json"] =
    .ok (.run { config := some "node.json", list := true }) := rfl

end Rerun.CommandLine
