import Rerun.Proofs.Digest

/-!
# The order of digests

Digests are ordered by their bytes. The written forms are as long as each other and each byte is
written with its high half in front, so they are ordered alike (`Digest.text_lt_iff`).
-/

namespace Rerun

/-! ## Hexadecimal text -/

namespace Hex

theorem digit_lt {m n : UInt8} (hn : n < 16) (h : m < n) : digit m < digit n := by
  have hall : ∀ a b : Fin 16, a < b → digit (UInt8.ofNat a) < digit (UInt8.ofNat b) := by decide
  have hlt : m.toNat < n.toNat := UInt8.lt_iff_toNat_lt.1 h
  have hn' : n.toNat < 16 := by simpa [UInt8.lt_iff_toNat_lt] using hn
  simpa using hall ⟨m.toNat, by omega⟩ ⟨n.toNat, hn'⟩ hlt

/-- Of two bytes, the greater one has the greater high half, or the same and the greater low one. -/
theorem halves_lt {b c : UInt8} (h : b < c) :
    b >>> 4 < c >>> 4 ∨ b >>> 4 = c >>> 4 ∧ b &&& 0x0F < c &&& 0x0F := by
  rw [UInt8.lt_iff_toNat_lt] at h
  rw [UInt8.lt_iff_toNat_lt, UInt8.lt_iff_toNat_lt, ← UInt8.toNat_inj, toNat_high, toNat_high,
    toNat_low, toNat_low]
  omega

theorem digits_lt {bs cs : Bytes} (h : bs < cs) : digits bs < digits cs := by
  induction h with
  | nil => exact List.Lex.nil
  | @rel b bs c cs hlt =>
    rw [digits, digits, List.flatMap_cons, List.flatMap_cons]
    rcases halves_lt hlt with hhigh | ⟨hhigh, hlow⟩
    · exact .rel (digit_lt (halves_of_byte c).1 hhigh)
    · rw [pair, pair, hhigh]
      exact .cons (.rel (digit_lt (halves_of_byte c).2.1 hlow))
  | cons _ ih =>
    rw [digits, digits, List.flatMap_cons, List.flatMap_cons]
    exact .cons (.cons ih)

end Hex

/-! ## Text -/

namespace Bytes

theorem toNat_char {b : UInt8} (h : b < 0x80) : (Char.ofNat b.toNat).toNat = b.toNat := by
  have hlt : b.toNat < 128 := UInt8.lt_iff_toNat_lt.1 h
  have hvalid : b.toNat.isValidChar := .inl (by omega)
  unfold Char.ofNat
  rw [dif_pos hvalid]
  rfl

/-- Characters below 128 are ordered as the bytes that number them. -/
theorem chars_lt {bs cs : Bytes} (hbs : ∀ b ∈ bs, b < 0x80) (hcs : ∀ c ∈ cs, c < 0x80)
    (h : bs < cs) :
    (bs.map fun b => Char.ofNat b.toNat) < cs.map fun c => Char.ofNat c.toNat := by
  induction h with
  | nil => exact List.Lex.nil
  | @rel b bs c cs hlt =>
    refine .rel ?_
    show (Char.ofNat b.toNat).toNat < (Char.ofNat c.toNat).toNat
    rw [toNat_char (hbs b List.mem_cons_self), toNat_char (hcs c List.mem_cons_self)]
    exact UInt8.lt_iff_toNat_lt.1 hlt
  | cons _ ih =>
    exact .cons (ih (fun b hb => hbs b (List.mem_cons_of_mem _ hb))
      fun c hc => hcs c (List.mem_cons_of_mem _ hc))

end Bytes

/-! ## Digests -/

namespace Digest

/-- A digest comes before another one. -/
def Before (a b : Digest) : Prop := a.bytes < b.bytes

variable {a b c : Digest}

theorem Before.trans (h : a.Before b) (h' : b.Before c) : a.Before c := List.lt_trans h h'

theorem Before.ne (h : a.Before b) : a ≠ b := by
  rintro rfl
  exact List.lt_irrefl _ h

theorem Before.asymm (h : a.Before b) : ¬ b.Before a := List.lt_asymm h

instance : Std.Asymm Before := ⟨fun _ _ => Before.asymm⟩

theorem bytes_inj (h : a.bytes = b.bytes) : a = b := by
  cases a
  cases b
  cases h
  rfl

/-- What the search for a place in the order decides. -/
theorem before_of_le (hne : a ≠ b) (h : a.le b = true) : a.Before b :=
  (List.le_iff_lt_or_eq.1 (of_decide_eq_true h)).resolve_right fun heq => hne (bytes_inj heq)

theorem before_of_not_le (h : ¬ a.le b = true) : b.Before a := by
  unfold le at h
  rw [decide_eq_true_eq] at h
  exact List.not_le.1 h

theorem before_total (hne : a ≠ b) : a.Before b ∨ b.Before a := by
  by_cases h : a.le b = true
  · exact .inl (before_of_le hne h)
  · exact .inr (before_of_not_le h)

theorem Before.text_lt (h : a.Before b) : a.text < b.text := by
  show a.text.toList < b.text.toList
  rw [toList_text, toList_text]
  exact .cons (.cons (Bytes.chars_lt (fun _ hd => (Hex.digits_class hd).1)
    (fun _ hd => (Hex.digits_class hd).1) (Hex.digits_lt h)))

/-- The written forms of digests are ordered as their bytes. -/
theorem text_lt_iff : a.text < b.text ↔ a.Before b := by
  refine ⟨fun h => ?_, Before.text_lt⟩
  by_cases hab : a = b
  · rw [hab] at h
    exact absurd h (String.lt_irrefl _)
  · refine (before_total hab).resolve_right fun hba => ?_
    exact String.lt_asymm h hba.text_lt

end Digest

end Rerun
