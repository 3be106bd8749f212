import Mathlib.Tactic.ByContra
import Rerun.Proofs.Digest

/-!
# What hexadecimal digits spell

A hexadecimal digit counts by its place in one of two rows of sixteen, and two of them spell a byte
(`Hex.Spells`). Reading an even number of bytes gives what they spell, or else the first of them
that is no digit (`Hex.readPairs_cases`). Digits of either case spell the same, and those that are
written are the lower-case ones (`Hex.Spells.digits_eq`).
-/

namespace Rerun.Hex

/-! ## Digits -/

/-- The place of a character among the sixteen digits of either case. -/
def place? (c : Char) : Option Nat :=
  "0123456789abcdef".toList.idxOf? c <|> "0123456789ABCDEF".toList.idxOf? c

/-- Whether a character is a digit. -/
def IsDigit (c : Char) : Prop := (place? c).isSome = true

instance (c : Char) : Decidable (IsDigit c) := inferInstanceAs (Decidable (_ = true))

/-- The character that a byte numbers. -/
def char (b : UInt8) : Char := Char.ofNat b.toNat

theorem isDigit_of_place {c : Char} {n : Nat} (h : place? c = some n) : IsDigit c := by
  unfold IsDigit
  rw [h]
  rfl

/-- The value of a digit is its place. -/
theorem place?_char : ∀ b : UInt8, place? (char b) = (value? b).map UInt8.toNat :=
  Bytes.forall_byte (by decide +kernel)

theorem lt_of_isDigit : ∀ b : UInt8, IsDigit (char b) → b < 0x80 :=
  Bytes.forall_byte (by decide +kernel)

theorem isDigit_char_iff {b : UInt8} : IsDigit (char b) ↔ ∃ n, value? b = some n := by
  unfold IsDigit
  rw [place?_char, Option.isSome_map, Option.isSome_iff_exists]

/-- The digits of both cases. -/
def alphabet : List Char := "0123456789abcdefABCDEF".toList

theorem mem_alphabet {c : Char} (h : IsDigit c) : c ∈ alphabet := by
  have hmem : c ∈ "0123456789abcdef".toList ++ "0123456789ABCDEF".toList := by
    by_contra hnot
    rw [List.mem_append, not_or] at hnot
    unfold IsDigit place? at h
    rw [List.idxOf?_eq_none_iff.2 hnot.1, List.idxOf?_eq_none_iff.2 hnot.2] at h
    exact absurd h (by decide)
  have hall : ("0123456789abcdef".toList ++ "0123456789ABCDEF".toList).all alphabet.contains =
      true := by decide
  exact List.contains_iff_mem.1 (List.all_eq_true.1 hall c hmem)

/-- A digit is numbered by a byte, and in lower case it is the one that is written for its place. -/
theorem digit_of_place {c : Char} {n : Nat} (h : place? c = some n) :
    char (UInt8.ofNat c.toNat) = c ∧ n < 16 ∧ char (digit (UInt8.ofNat n)) = c.toLower := by
  have hall : (alphabet.all fun c => (place? c).all fun n => char (UInt8.ofNat c.toNat) = c ∧
      n < 16 ∧ char (digit (UInt8.ofNat n)) = c.toLower) = true := by
    decide +kernel
  have hc := List.all_eq_true.1 hall c (mem_alphabet (isDigit_of_place h))
  rw [h] at hc
  exact of_decide_eq_true hc

/-- A digit is the character that its byte numbers. -/
theorem char_ofNat_of_isDigit {c : Char} (h : IsDigit c) : char (UInt8.ofNat c.toNat) = c := by
  obtain ⟨n, hn⟩ := Option.isSome_iff_exists.1 h
  exact (digit_of_place hn).1

/-! ## Spelling -/

/-- Two digits spell a byte, the high one first. -/
inductive Spells : List Char → Bytes → Prop where
  | nil : Spells [] []
  | cons {high low : Char} {b : UInt8} {cs : List Char} {bs : Bytes}
      (hhigh : place? high = some (b.toNat / 16)) (hlow : place? low = some (b.toNat % 16))
      (hrest : Spells cs bs) : Spells (high :: low :: cs) (b :: bs)

variable {cs : List Char} {bs bs' : Bytes}

theorem Spells.length (h : Spells cs bs) : cs.length = 2 * bs.length := by
  induction h with
  | nil => rfl
  | cons _ _ _ ih =>
    simp only [List.length_cons, ih]
    omega

theorem Spells.isDigit (h : Spells cs bs) : ∀ c ∈ cs, IsDigit c := by
  induction h with
  | nil => exact List.forall_mem_nil _
  | cons hhigh hlow _ ih =>
    exact List.forall_mem_cons.2 ⟨isDigit_of_place hhigh,
      List.forall_mem_cons.2 ⟨isDigit_of_place hlow, ih⟩⟩

/-- Digits spell one byte string only. -/
theorem Spells.unique (h : Spells cs bs) (h' : Spells cs bs') : bs = bs' := by
  induction h generalizing bs' with
  | nil =>
    cases h'
    rfl
  | @cons _ _ b _ _ hhigh hlow _ ih =>
    cases h' with
    | @cons _ _ b' _ _ hhigh' hlow' hrest' =>
      have hdiv : b.toNat / 16 = b'.toNat / 16 := Option.some.inj (hhigh.symm.trans hhigh')
      have hmod : b.toNat % 16 = b'.toNat % 16 := Option.some.inj (hlow.symm.trans hlow')
      have hb : b = b' := by
        apply UInt8.toNat_inj.1
        omega
      rw [hb, ih hrest']

/-- What is written for some bytes spells them. -/
theorem spells_digits (bs : Bytes) : Spells ((digits bs).map char) bs := by
  induction bs with
  | nil => exact .nil
  | cons b bs ih =>
    obtain ⟨hhigh, hlow, -⟩ := halves_of_byte b
    rw [digits, List.flatMap_cons, List.map_append, ← digits]
    refine .cons ?_ ?_ ih
    · rw [place?_char, value?_digit _ hhigh, Option.map_some, toNat_high]
    · rw [place?_char, value?_digit _ hlow, Option.map_some, toNat_low]

/-- The digits that are written are the lower-case ones. -/
theorem Spells.digits_eq (h : Spells cs bs) : (digits bs).map char = cs.map Char.toLower := by
  induction h with
  | nil => rfl
  | @cons high low b cs bs hhigh hlow _ ih =>
    have hhigh := (digit_of_place hhigh).2.2
    have hlow := (digit_of_place hlow).2.2
    rw [← toNat_high, UInt8.ofNat_toNat] at hhigh
    rw [← toNat_low, UInt8.ofNat_toNat] at hlow
    rw [digits, List.flatMap_cons, List.map_append, ← digits, ih, List.map_cons, List.map_cons,
      ← hhigh, ← hlow]
    rfl

/-! ## Reading -/

/-- The first byte of a text that is no digit, and where it stands. -/
structure FirstBad (text : Bytes) (b : UInt8) (i : Nat) : Prop where
  found : text[i]? = some b
  bad : ¬ IsDigit (char b)
  before : ∀ j < i, ∀ c, text[j]? = some c → IsDigit (char c)

variable {text : Bytes} {b c : UInt8} {i j : Nat}

theorem FirstBad.head (h : ¬ IsDigit (char b)) : FirstBad (b :: text) b 0 :=
  ⟨rfl, h, fun _ hj => absurd hj (Nat.not_lt_zero _)⟩

theorem FirstBad.cons (h : FirstBad text b i) (hc : IsDigit (char c)) :
    FirstBad (c :: text) b (i + 1) := by
  refine ⟨by rw [List.getElem?_cons_succ, h.found], h.bad, fun j hj d hd => ?_⟩
  cases j with
  | zero =>
    cases hd
    exact hc
  | succ j => exact h.before j (Nat.lt_of_succ_lt_succ hj) d hd

theorem FirstBad.mem (h : FirstBad text b i) : b ∈ text := List.mem_of_getElem? h.found

/-- There is one first byte that is no digit. -/
theorem FirstBad.unique (h : FirstBad text b i) (h' : FirstBad text c j) : b = c ∧ i = j := by
  have hij : i = j := by
    rcases Nat.lt_trichotomy i j with hlt | heq | hgt
    · exact absurd (h'.before i hlt b h.found) h.bad
    · exact heq
    · exact absurd (h.before j hgt c h'.found) h'.bad
  subst hij
  exact ⟨Option.some.inj (h.found.symm.trans h'.found), rfl⟩

theorem spells_pair {high low h l : UInt8} (hhigh : value? high = some h)
    (hlow : value? low = some l) (hrest : Spells (text.map char) bs) :
    Spells ((high :: low :: text).map char) ((h * 16 + l) :: bs) := by
  have hh : place? (char high) = some h.toNat := by rw [place?_char, hhigh, Option.map_some]
  have hl : place? (char low) = some l.toNat := by rw [place?_char, hlow, Option.map_some]
  have hh16 := (digit_of_place hh).2.1
  have hl16 := (digit_of_place hl).2.1
  have hb : (h * 16 + l).toNat = h.toNat * 16 + l.toNat := by
    simp only [UInt8.toNat_add, UInt8.toNat_mul, UInt8.reduceToNat]
    omega
  refine .cons ?_ ?_ hrest
  · rw [hb, hh]
    congr 1
    omega
  · rw [hb, hl]
    congr 1
    omega

/-- Pairs of bytes are read as what they spell, or else the first that is no digit is reported. -/
theorem readPairs_cases : ∀ (index : Nat) {text : Bytes}, text.length % 2 = 0 →
    (∃ bs, Spells (text.map char) bs ∧ readPairs index text = .ok bs) ∨
      ∃ b i, FirstBad text b i ∧ readPairs index text = .error (.badDigit b (index + i))
  | _, [], _ => .inl ⟨[], .nil, rfl⟩
  | _, [_], hlength => absurd hlength (by simp)
  | index, high :: low :: text, hlength => by
    have hlength : text.length % 2 = 0 := by
      simp only [List.length_cons] at hlength
      omega
    rw [readPairs.eq_def]
    dsimp only
    cases hhigh : value? high with
    | none =>
      have hbad : ¬ IsDigit (char high) := by
        rw [isDigit_char_iff, hhigh]
        simp
      exact .inr ⟨high, 0, .head hbad, rfl⟩
    | some h =>
      have hhigh' : IsDigit (char high) := isDigit_char_iff.2 ⟨h, hhigh⟩
      cases hlow : value? low with
      | none =>
        have hbad : ¬ IsDigit (char low) := by
          rw [isDigit_char_iff, hlow]
          simp
        exact .inr ⟨low, 1, (FirstBad.head hbad).cons hhigh', by simp only [hlow]⟩
      | some l =>
        have hlow' : IsDigit (char low) := isDigit_char_iff.2 ⟨l, hlow⟩
        rcases readPairs_cases (index + 2) hlength with ⟨bs, hbs, hread⟩ | ⟨b, i, hbad, hread⟩
        · refine .inl ⟨(h * 16 + l) :: bs, spells_pair hhigh hlow hbs, ?_⟩
          simp only [hlow, hread]
          rfl
        · refine .inr ⟨b, i + 2, (hbad.cons hlow').cons hhigh', ?_⟩
          simp only [hlow, hread, Nat.add_assoc, Nat.add_comm 2 i]
          rfl

end Rerun.Hex
