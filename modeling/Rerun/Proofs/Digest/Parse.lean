import Mathlib.Data.List.TakeWhile
import Mathlib.Tactic.SplitIfs
import Rerun.Error
import Rerun.Proofs.Digest.Order
import Rerun.Proofs.Digest.Spelling

/-!
# Reading digests

What is read is what is left of a text without the blanks at its two ends and without one mark in
front (`Digest.Bare`). It is read if it is sixty-four digits, as the bytes that they spell;
otherwise what is reported is the first of three reasons: an odd number of bytes, a byte that is no
digit, and another length (`Digest.parse_exact`).
-/

namespace Rerun

/-! ## Blanks at both ends -/

namespace Text

/-- `ts` is what is left of `cs` without the blanks at its two ends. -/
structure TrimsTo (cs ts : List Char) : Prop where
  split : ∃ l r, cs = l ++ ts ++ r ∧ (∀ c ∈ l, isBlank c = true) ∧ ∀ c ∈ r, isBlank c = true
  starts : ∀ c, ts.head? = some c → isBlank c = false
  ends : ∀ c, ts.getLast? = some c → isBlank c = false

variable {cs ts : List Char}

theorem head_dropWhile {c : Char} (h : (cs.dropWhile isBlank).head? = some c) :
    isBlank c = false := by
  have hnot := List.head?_dropWhile_not isBlank cs
  rwa [h] at hnot

theorem dropWhile_of_head (h : ∀ c, ts.head? = some c → isBlank c = false) :
    ts.dropWhile isBlank = ts := by
  cases ts with
  | nil => rfl
  | cons c ts => rw [List.dropWhile_cons_of_neg (by rw [h c rfl]; decide)]

theorem trimsTo_trimChars (cs : List Char) : TrimsTo cs (trimChars cs) := by
  have hfront := List.takeWhile_append_dropWhile (p := isBlank) (l := cs)
  have hback := List.takeWhile_append_dropWhile (p := isBlank) (l := (cs.dropWhile isBlank).reverse)
  have hrest : cs.dropWhile isBlank =
      trimChars cs ++ ((cs.dropWhile isBlank).reverse.takeWhile isBlank).reverse := by
    rw [trimChars, ← List.reverse_append, hback, List.reverse_reverse]
  refine ⟨⟨cs.takeWhile isBlank, ((cs.dropWhile isBlank).reverse.takeWhile isBlank).reverse,
    ?_, fun c hc => List.mem_takeWhile_imp hc, fun c hc => ?_⟩, fun c hc => ?_, fun c hc => ?_⟩
  · rw [List.append_assoc, ← hrest, hfront]
  · exact List.mem_takeWhile_imp (List.mem_reverse.1 hc)
  · have hhead : (cs.dropWhile isBlank).head? = some c := by
      rw [hrest, List.head?_append, hc]
      rfl
    exact head_dropWhile hhead
  · rw [trimChars, List.getLast?_reverse] at hc
    exact head_dropWhile hc

theorem TrimsTo.trimChars_eq (h : TrimsTo cs ts) : trimChars cs = ts := by
  obtain ⟨⟨l, r, rfl, hl, hr⟩, hstarts, hends⟩ := h
  unfold trimChars
  rw [List.append_assoc, List.dropWhile_append_of_pos hl]
  cases ts with
  | nil =>
    rw [List.nil_append, List.dropWhile_eq_nil_iff.2 hr]
    rfl
  | cons c ts =>
    have hfront : ∀ d, (c :: ts ++ r).head? = some d → isBlank d = false := hstarts
    rw [dropWhile_of_head hfront, List.reverse_append,
      List.dropWhile_append_of_pos fun d hd => hr d (List.mem_reverse.1 hd), dropWhile_of_head,
      List.reverse_reverse]
    intro d hd
    rw [List.head?_reverse] at hd
    exact hends d hd

theorem trimsTo_of_not_blank {l r : List Char} (hl : ∀ c ∈ l, isBlank c = true)
    (hr : ∀ c ∈ r, isBlank c = true) (hts : ∀ c ∈ ts, isBlank c = false) :
    TrimsTo (l ++ ts ++ r) ts :=
  ⟨⟨l, r, rfl, hl, hr⟩, fun _ hc => hts _ (List.mem_of_head? hc),
    fun _ hc => hts _ (List.mem_of_getLast? hc)⟩

end Text

/-! ## Text as bytes -/

namespace Bytes

theorem utf8_head {c : Char} {b : UInt8} {bs : Bytes} (h : String.utf8EncodeChar c = b :: bs)
    (hb : b < 0x80) : c = Hex.char b ∧ bs = [] := by
  have hlt : b.toNat < 128 := UInt8.lt_iff_toNat_lt.1 hb
  unfold String.utf8EncodeChar at h
  dsimp only at h
  split_ifs at h with hone htwo hthree <;> obtain ⟨rfl, rfl⟩ := List.cons.inj h
  · refine ⟨?_, rfl⟩
    have hnumber : (UInt8.ofNat c.val.toNat).toNat = c.val.toNat :=
      UInt8.toNat_ofNat_of_lt (by simp only [UInt8.size]; omega)
    unfold Hex.char
    rw [hnumber]
    exact (Char.ofNat_toNat c).symm
  -- A longer form begins with a byte of `0xC0` or more.
  all_goals
    rw [UInt8.toNat_ofNat'] at hlt
    omega

/-- A text begins with the character that its first byte numbers, if that is below 128. -/
theorem chars_of_ofText {cs : List Char} {b : UInt8} {bs : Bytes}
    (h : ofText (String.ofList cs) = b :: bs) (hb : b < 0x80) :
    ∃ ds, cs = Hex.char b :: ds ∧ ofText (String.ofList ds) = bs := by
  rw [ofText_ofList] at h
  cases cs with
  | nil => cases h
  | cons c ds =>
    rw [List.flatMap_cons] at h
    cases hc : String.utf8EncodeChar c with
    | nil =>
      have hlength := congrArg List.length hc
      rw [String.length_utf8EncodeChar] at hlength
      exact absurd hlength (Nat.ne_of_gt c.utf8Size_pos)
    | cons d rest =>
      rw [hc] at h
      obtain ⟨rfl, hrest⟩ := List.cons.inj h
      obtain ⟨rfl, rfl⟩ := utf8_head hc hb
      exact ⟨ds, rfl, (ofText_ofList ds).trans hrest⟩

/-- Bytes that are digits are the characters of the text. -/
theorem map_char_ofText {s : String} (h : ∀ b ∈ ofText s, Hex.IsDigit (Hex.char b)) :
    (ofText s).map Hex.char = s.toList := by
  have hascii := ofText_ascii fun b hb => Hex.lt_of_isDigit b (h b hb)
  have htext := congrArg String.toList (ofText_inj hascii)
  rwa [String.toList_ofList] at htext

/-- Characters that are digits are the bytes of the text. -/
theorem isDigit_of_mem_ofText {s : String} (h : ∀ c ∈ s.toList, Hex.IsDigit c) :
    ∀ b ∈ ofText s, Hex.IsDigit (Hex.char b) := by
  intro b hb
  rw [← String.ofList_toList (s := s), ofText_ofList] at hb
  obtain ⟨c, hc, hb⟩ := List.mem_flatMap.1 hb
  have hdigit := h c hc
  rw [← Hex.char_ofNat_of_isDigit hdigit] at hb hdigit
  rw [Hex.char, utf8_ascii (Hex.lt_of_isDigit _ hdigit), List.mem_singleton] at hb
  rw [hb]
  exact hdigit

end Bytes

/-! ## The mark -/

namespace Digest

/-- `ds` is what is left of `cs` without one mark in front, if it has any. -/
inductive Unmarks : List Char → List Char → Prop where
  | lower {ds : List Char} : Unmarks ('0' :: 'x' :: ds) ds
  | upper {ds : List Char} : Unmarks ('0' :: 'X' :: ds) ds
  | none {cs : List Char} (hlower : ∀ ds, cs ≠ '0' :: 'x' :: ds)
      (hupper : ∀ ds, cs ≠ '0' :: 'X' :: ds) : Unmarks cs cs

theorem exists_unmarks (cs : List Char) : ∃ ds, Unmarks cs ds := by
  by_cases hlower : ∃ ds, cs = '0' :: 'x' :: ds
  · obtain ⟨ds, rfl⟩ := hlower
    exact ⟨ds, .lower⟩
  · by_cases hupper : ∃ ds, cs = '0' :: 'X' :: ds
    · obtain ⟨ds, rfl⟩ := hupper
      exact ⟨ds, .upper⟩
    · exact ⟨cs, .none (fun ds h => hlower ⟨ds, h⟩) fun ds h => hupper ⟨ds, h⟩⟩

theorem Unmarks.unique {cs ds es : List Char} (h : Unmarks cs ds) (h' : Unmarks cs es) :
    ds = es := by
  cases h with
  | lower =>
    cases h' with
    | lower => rfl
    | none hlower _ => exact absurd rfl (hlower _)
  | upper =>
    cases h' with
    | upper => rfl
    | none _ hupper => exact absurd rfl (hupper _)
  | none hlower hupper =>
    cases h' with
    | lower => exact absurd rfl (hlower _)
    | upper => exact absurd rfl (hupper _)
    | none => rfl

theorem stripMark_of_ne {bs : Bytes} (hlower : ∀ rest, bs ≠ 0x30 :: 0x78 :: rest)
    (hupper : ∀ rest, bs ≠ 0x30 :: 0x58 :: rest) : stripMark bs = bs := by
  unfold stripMark
  split
  · exact absurd rfl (hlower _)
  · exact absurd rfl (hupper _)
  · rfl

theorem Unmarks.stripMark_eq {cs ds : List Char} (h : Unmarks cs ds) :
    stripMark (Bytes.ofText (String.ofList cs)) = Bytes.ofText (String.ofList ds) := by
  cases h with
  | lower =>
    rw [Bytes.ofText_ofList, Bytes.ofText_ofList]
    rfl
  | upper =>
    rw [Bytes.ofText_ofList, Bytes.ofText_ofList]
    rfl
  | none hlower hupper =>
    have hmark : ∀ b : UInt8, b < 0x80 → ∀ rest,
        Bytes.ofText (String.ofList cs) = 0x30 :: b :: rest →
          ∃ ds, cs = '0' :: Hex.char b :: ds := by
      intro b hb rest hrest
      obtain ⟨ds, rfl, htail⟩ := Bytes.chars_of_ofText hrest (by decide)
      obtain ⟨es, rfl, -⟩ := Bytes.chars_of_ofText htail hb
      exact ⟨es, rfl⟩
    refine stripMark_of_ne (fun rest h => ?_) fun rest h => ?_
    · obtain ⟨ds, hds⟩ := hmark 0x78 (by decide) rest h
      exact hlower ds hds
    · obtain ⟨ds, hds⟩ := hmark 0x58 (by decide) rest h
      exact hupper ds hds

/-! ## What a text holds -/

/-- `u` is what is left of `s` without the blanks at its two ends and then without one mark. -/
def Bare (s u : String) : Prop := ∃ cs, Text.TrimsTo s.toList cs ∧ Unmarks cs u.toList

variable {s u v : String}

theorem exists_bare (s : String) : ∃ u, Bare s u := by
  obtain ⟨ds, hds⟩ := exists_unmarks (Text.trimChars s.toList)
  refine ⟨String.ofList ds, Text.trimChars s.toList, Text.trimsTo_trimChars s.toList, ?_⟩
  rwa [String.toList_ofList]

theorem Bare.unique (h : Bare s u) (h' : Bare s v) : u = v := by
  obtain ⟨cs, htrims, hunmarks⟩ := h
  obtain ⟨ds, htrims', hunmarks'⟩ := h'
  have hcs : cs = ds := htrims.trimChars_eq.symm.trans htrims'.trimChars_eq
  subst hcs
  exact String.toList_inj.1 (hunmarks.unique hunmarks')

theorem Bare.stripMark_eq (h : Bare s u) :
    stripMark (Bytes.ofText (Text.trim s)) = Bytes.ofText u := by
  obtain ⟨cs, htrims, hunmarks⟩ := h
  rw [Text.trim, htrims.trimChars_eq, hunmarks.stripMark_eq, String.ofList_toList]

/-! ## Reading -/

/-- Why a text `s` is no digest, where `text` is what is left of it: the first reason that applies,
in the words in which it is reported. -/
inductive Refuses (s : String) (text : Bytes) : Error → Prop where
  | oddLength (hodd : text.length % 2 = 1) :
    Refuses s text (.invalidInput s!"bad hex digest {Text.quoted s}: Odd number of digits")
  | badDigit {b : UInt8} {i : Nat} (heven : text.length % 2 = 0) (hbad : Hex.FirstBad text b i) :
    Refuses s text (.invalidInput (s!"bad hex digest {Text.quoted s}: " ++
      s!"Invalid character {Text.quotedChar (Hex.char b)} at position {i}"))
  | wrongLength (heven : text.length % 2 = 0) (hdigits : ∀ b ∈ text, Hex.IsDigit (Hex.char b))
      (hlength : text.length ≠ 64) :
    Refuses s text (.invalidInput s!"digest must be 32 bytes, got {text.length / 2}")

theorem ofDigestFault_oddLength (s : String) :
    Error.ofDigestFault (.badHex s .oddLength) =
      .invalidInput s!"bad hex digest {Text.quoted s}: Odd number of digits" := by
  have hjoin : ": " ++ "Odd number of digits" = ": Odd number of digits" := by decide
  unfold Error.ofDigestFault Fault.message Hex.Fault.message
  simp only [toString, String.append_assoc, hjoin]

theorem ofDigestFault_badDigit (s : String) (b : UInt8) (i : Nat) :
    Error.ofDigestFault (.badHex s (.badDigit b i)) =
      .invalidInput (s!"bad hex digest {Text.quoted s}: " ++
        s!"Invalid character {Text.quotedChar (Hex.char b)} at position {i}") := by
  unfold Error.ofDigestFault Fault.message Hex.Fault.message Hex.char
  simp only [toString, String.append_assoc]

/-- There is one reason. -/
theorem Refuses.unique {text : Bytes} {e f : Error} (h : Refuses s text e) (h' : Refuses s text f) :
    e = f := by
  cases h with
  | oddLength hodd =>
    cases h' with
    | oddLength => rfl
    | badDigit heven | wrongLength heven => omega
  | badDigit heven hbad =>
    cases h' with
    | oddLength hodd => omega
    | badDigit _ hbad' =>
      obtain ⟨rfl, rfl⟩ := hbad.unique hbad'
      rfl
    | wrongLength _ hdigits => exact absurd (hdigits _ hbad.mem) hbad.bad
  | wrongLength heven hdigits hlength =>
    cases h' with
    | oddLength hodd => omega
    | badDigit _ hbad => exact absurd (hdigits _ hbad.mem) hbad.bad
    | wrongLength => rfl

/-- Sixty-four digits are not refused. -/
theorem Refuses.not_digits {e : Error} (h : Refuses s (Bytes.ofText u) e)
    (hlength : u.toList.length = 64) (hdigits : ∀ c ∈ u.toList, Hex.IsDigit c) : False := by
  have hbytes := Bytes.isDigit_of_mem_ofText hdigits
  rw [← Bytes.map_char_ofText hbytes, List.length_map] at hlength
  cases h with
  | oddLength hodd => omega
  | badDigit _ hbad => exact hbad.bad (hbytes _ hbad.mem)
  | wrongLength _ _ hne => exact hne hlength

theorem Refuses.not_spells {e : Error} {d : Digest} (h : Refuses s (Bytes.ofText u) e)
    (hd : Hex.Spells u.toList d.bytes) : False :=
  h.not_digits (by rw [hd.length, d.length_eq]) hd.isDigit

/-- A text is read as what its digits spell, or refused. -/
theorem Bare.parse_cases (h : Bare s u) :
    (∃ d, parse s = .ok d ∧ Hex.Spells u.toList d.bytes) ∨
      ∃ fault, parse s = .error fault ∧ Refuses s (Bytes.ofText u) (.ofDigestFault fault) := by
  unfold parse
  rw [h.stripMark_eq, Hex.read]
  by_cases hodd : (Bytes.ofText u).length % 2 = 1
  · rw [if_pos hodd]
    refine .inr ⟨_, rfl, ?_⟩
    rw [ofDigestFault_oddLength]
    exact .oddLength hodd
  · have heven : (Bytes.ofText u).length % 2 = 0 := by omega
    rw [if_neg hodd]
    rcases Hex.readPairs_cases 0 heven with ⟨bs, hspells, hread⟩ | ⟨b, i, hbad, hread⟩
    · have hdigits : ∀ b ∈ Bytes.ofText u, Hex.IsDigit (Hex.char b) := fun b hb =>
        hspells.isDigit _ (List.mem_map_of_mem hb)
      have hlength := hspells.length
      rw [List.length_map] at hlength
      rw [hread]
      dsimp only
      by_cases h32 : bs.length = 32
      · rw [dif_pos h32]
        rw [Bytes.map_char_ofText hdigits] at hspells
        exact .inl ⟨_, rfl, hspells⟩
      · rw [dif_neg h32]
        have hhalf : bs.length = (Bytes.ofText u).length / 2 := by omega
        rw [hhalf]
        exact .inr ⟨_, rfl, .wrongLength heven hdigits (by omega)⟩
    · rw [hread, Nat.zero_add]
      refine .inr ⟨_, rfl, ?_⟩
      rw [ofDigestFault_badDigit]
      exact .badDigit heven hbad

/-- What is read is what the digits spell. -/
theorem Bare.parse_eq_ok_iff (h : Bare s u) {d : Digest} :
    parse s = .ok d ↔ Hex.Spells u.toList d.bytes := by
  rcases h.parse_cases with ⟨e, hok, hspells⟩ | ⟨fault, herror, hrefuses⟩
  · rw [hok]
    constructor
    · rintro ⟨⟩
      exact hspells
    · intro hd
      rw [bytes_inj (hspells.unique hd)]
  · rw [herror]
    exact ⟨nofun, fun hd => (hrefuses.not_spells hd).elim⟩

/-- Sixty-four digits are read, and nothing else is. -/
theorem Bare.exists_parse_eq_ok_iff (h : Bare s u) :
    (∃ d, parse s = .ok d) ↔ u.toList.length = 64 ∧ ∀ c ∈ u.toList, Hex.IsDigit c := by
  constructor
  · rintro ⟨d, hd⟩
    have hspells := h.parse_eq_ok_iff.1 hd
    refine ⟨?_, hspells.isDigit⟩
    rw [hspells.length, d.length_eq]
  · rintro ⟨hlength, hdigits⟩
    rcases h.parse_cases with ⟨d, hok, -⟩ | ⟨fault, -, hrefuses⟩
    · exact ⟨d, hok⟩
    · exact (hrefuses.not_digits hlength hdigits).elim

/-- What is reported of a text that is no digest. -/
theorem Bare.parse_eq_error_iff (h : Bare s u) {e : Error} :
    (parse s).mapError Error.ofDigestFault = .error e ↔ Refuses s (Bytes.ofText u) e := by
  rcases h.parse_cases with ⟨d, hok, hspells⟩ | ⟨fault, herror, hrefuses⟩
  · rw [hok]
    exact ⟨nofun, fun he => (he.not_spells hspells).elim⟩
  · rw [herror]
    constructor
    · rintro ⟨⟩
      exact hrefuses
    · intro he
      rw [he.unique hrefuses]
      rfl

/-! ## Writing -/

/-- A digest that was read is written in lower case and with its mark. -/
theorem Bare.text_eq (h : Bare s u) {d : Digest} (hd : parse s = .ok d) :
    d.text = "0x" ++ String.ofList (u.toList.map Char.toLower) := by
  rw [← (h.parse_eq_ok_iff.1 hd).digits_eq]
  rfl

/-- The texts that may stand in front of the digits. -/
def marks : List String := ["", "0x", "0X"]

theorem isDigit_of_mem_encode {bs : Bytes} {c : Char} (h : c ∈ (Hex.encode bs).toList) :
    Hex.IsDigit c := by
  rw [Hex.encode, String.toList_ofList] at h
  exact (Hex.spells_digits bs).isDigit c h

theorem unmarks_of_mark {mark : String} (hmark : mark ∈ marks) (bs : Bytes) :
    Unmarks (mark ++ Hex.encode bs).toList (Hex.encode bs).toList := by
  have hnot : ∀ c ds, ¬ Hex.IsDigit c → (Hex.encode bs).toList ≠ '0' :: c :: ds := by
    intro c ds hc h
    have hmem : c ∈ (Hex.encode bs).toList := by
      rw [h]
      exact List.mem_cons_of_mem _ List.mem_cons_self
    exact hc (isDigit_of_mem_encode hmem)
  rw [String.toList_append]
  simp only [marks, List.mem_cons, List.not_mem_nil, or_false] at hmark
  rcases hmark with rfl | rfl | rfl
  · exact .none (fun ds => hnot 'x' ds (by decide)) fun ds => hnot 'X' ds (by decide)
  · exact .lower
  · exact .upper

theorem not_blank_of_mem_marked {mark : String} (hmark : mark ∈ marks) {bs : Bytes} {c : Char}
    (hc : c ∈ (mark ++ Hex.encode bs).toList) : Text.isBlank c = false := by
  rw [String.toList_append, List.mem_append] at hc
  rcases hc with hc | hc
  · have hall : (marks.all fun mark => mark.toList.all fun c => !Text.isBlank c) = true := by decide
    have hmarked := List.all_eq_true.1 (List.all_eq_true.1 hall mark hmark) c hc
    simpa using hmarked
  · rw [Hex.encode, String.toList_ofList] at hc
    obtain ⟨b, hb, rfl⟩ := List.mem_map.1 hc
    exact (Hex.digits_class hb).2.1

/-- Blanks and the mark make no difference to what is read. -/
theorem parse_surrounded (d : Digest) {l mark r : String}
    (hl : ∀ c ∈ l.toList, Text.isBlank c = true) (hmark : mark ∈ marks)
    (hr : ∀ c ∈ r.toList, Text.isBlank c = true) :
    parse (l ++ (mark ++ Hex.encode d.bytes) ++ r) = .ok d := by
  have hbare : Bare (l ++ (mark ++ Hex.encode d.bytes) ++ r) (Hex.encode d.bytes) := by
    refine ⟨_, ?_, unmarks_of_mark hmark d.bytes⟩
    rw [String.toList_append, String.toList_append]
    exact Text.trimsTo_of_not_blank hl hr fun c hc => not_blank_of_mem_marked hmark hc
  refine hbare.parse_eq_ok_iff.2 ?_
  rw [Hex.encode, String.toList_ofList]
  exact Hex.spells_digits d.bytes

/-! ## Exact reading -/

/-- Digests are read exactly. Of every text one text is left, and it is read if it is sixty-four
digits, as the bytes that they spell; the written form of what was read is that text in lower case,
with its mark. Otherwise the first reason that applies is reported. And what is written is read as
it was, with a mark of either case or none and with blanks around it. -/
theorem parse_exact :
    (∀ s : String, ∃ u, Bare s u ∧ (∀ v, Bare s v → v = u) ∧
      (∀ d, parse s = .ok d ↔ Hex.Spells u.toList d.bytes) ∧
      ((∃ d, parse s = .ok d) ↔ u.toList.length = 64 ∧ ∀ c ∈ u.toList, Hex.IsDigit c) ∧
      (∀ e, (parse s).mapError Error.ofDigestFault = .error e ↔ Refuses s (Bytes.ofText u) e) ∧
      ∀ d, parse s = .ok d → d.text = "0x" ++ String.ofList (u.toList.map Char.toLower)) ∧
    ∀ (d : Digest) (digits : String), d.text = "0x" ++ digits → ∀ l mark r : String,
      (∀ c ∈ l.toList, Text.isBlank c = true) → mark ∈ marks →
        (∀ c ∈ r.toList, Text.isBlank c = true) → parse (l ++ (mark ++ digits) ++ r) = .ok d := by
  refine ⟨fun s => ?_, fun d digits hdigits l mark r hl hmark hr => ?_⟩
  · obtain ⟨u, hu⟩ := exists_bare s
    exact ⟨u, hu, fun v hv => hv.unique hu, fun d => hu.parse_eq_ok_iff, hu.exists_parse_eq_ok_iff,
      fun e => hu.parse_eq_error_iff, fun d hd => hu.text_eq hd⟩
  · have hencode : digits = Hex.encode d.bytes := by
      have htext := congrArg String.toList hdigits
      rw [text, String.toList_append, String.toList_append, List.append_cancel_left_eq] at htext
      exact String.toList_inj.1 htext.symm
    rw [hencode]
    exact parse_surrounded d hl hmark hr

/-- A mark with a letter behind it that is no digit. -/
def accented : String := " 0x\u00e9"

/-- Blanks of any kind around the digits are dropped, and of a letter that is none the first of its
bytes is reported. -/
theorem parse_exact_on_accented :
    parse ("\u00a0" ++ ("0X" ++ Hex.encode zero.bytes) ++ "\n") = .ok zero ∧
      (parse accented).mapError Error.ofDigestFault = .error (.invalidInput
        "bad hex digest \" 0x\u00e9\": Invalid character '\u00c3' at position 0") := by
  obtain ⟨hreads, hsurrounded⟩ := parse_exact
  have hfront : ∀ c ∈ "\u00a0".toList, Text.isBlank c = true := List.all_eq_true.1 (by decide)
  have hback : ∀ c ∈ "\n".toList, Text.isBlank c = true := List.all_eq_true.1 (by decide)
  refine ⟨hsurrounded zero _ rfl _ _ _ hfront (by decide) hback, ?_⟩
  obtain ⟨u, -, hunique, -, -, herror, -⟩ := hreads accented
  have hbare : Bare accented "\u00e9" := ⟨_, Text.trimsTo_trimChars _, .lower⟩
  rw [← hunique _ hbare] at herror
  have hbad : Hex.FirstBad (Bytes.ofText "\u00e9") 0xC3 0 := .head (by decide)
  have hwords : "bad hex digest \" 0x\u00e9\": Invalid character '\u00c3' at position 0" =
      s!"bad hex digest {Text.quoted accented}: " ++
        s!"Invalid character {Text.quotedChar (Hex.char 0xC3)} at position {0}" := by
    decide +kernel
  rw [hwords]
  exact (herror _).2 (.badDigit (by decide) hbad)

end Digest

end Rerun
