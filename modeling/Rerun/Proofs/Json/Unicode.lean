import Rerun.Proofs.Json.Ascii

/-!
# What is written is text

An escape replaces a byte below 128, and no such byte stands inside a longer character. So whatever
characters the strings of a value have, its two written forms are text (`Value.compact_isText`,
`Value.pretty_isText`).
-/

namespace Rerun

namespace Bytes

/-- Some bytes are the form of a text. -/
def IsText (bs : Bytes) : Prop := ∃ s, ofText s = bs

theorem isText_ofText (s : String) : IsText (ofText s) := ⟨s, rfl⟩

theorem IsAscii.isText {bs : Bytes} (h : bs.IsAscii) : bs.IsText := ⟨_, ofText_ascii h⟩

theorem IsText.append {bs cs : Bytes} (hb : bs.IsText) (hc : cs.IsText) : (bs ++ cs).IsText := by
  obtain ⟨s, rfl⟩ := hb
  obtain ⟨t, rfl⟩ := hc
  exact ⟨s ++ t, ofText_append s t⟩

theorem IsText.cons {b : UInt8} {bs : Bytes} (hb : b < 0x80) (h : bs.IsText) : IsText (b :: bs) :=
  (IsAscii.cons hb (List.forall_mem_nil _)).isText.append h

/-- A character above ASCII has no byte below 128. -/
theorem le_of_mem_utf8 {c : Char} (h : 127 < c.val.toNat) {b : UInt8}
    (hb : b ∈ String.utf8EncodeChar c) : 0x80 ≤ b := by
  have hhigh : ∀ n : Nat, 128 ≤ n → n < 256 → 0x80 ≤ UInt8.ofNat n := by
    intro n hle hlt
    rw [UInt8.le_iff_toNat_le, UInt8.toNat_ofNat_of_lt' hlt]
    exact hle
  unfold String.utf8EncodeChar at hb
  dsimp only at hb
  rw [if_neg (by omega)] at hb
  split at hb
  · simp only [List.mem_cons, List.not_mem_nil, or_false] at hb
    rcases hb with rfl | rfl <;> exact hhigh _ (by omega) (by omega)
  · split at hb
    · simp only [List.mem_cons, List.not_mem_nil, or_false] at hb
      rcases hb with rfl | rfl | rfl <;> exact hhigh _ (by omega) (by omega)
    · simp only [List.mem_cons, List.not_mem_nil, or_false] at hb
      rcases hb with rfl | rfl | rfl | rfl <;> exact hhigh _ (by omega) (by omega)

end Bytes

namespace Json

/-! ## Strings -/

/-- Bytes above ASCII need no escape. -/
theorem escapeByte_of_le {b : UInt8} (h : 0x80 ≤ b) : escapeByte b = [b] := by
  have hall : ∀ n : Fin 128, escapeByte (UInt8.ofNat (128 + n)) = [UInt8.ofNat (128 + n)] := by
    decide
  have hb : 128 ≤ b.toNat := by simpa [UInt8.le_iff_toNat_le] using h
  have hn : 128 + (b.toNat - 128) = b.toNat := by omega
  have hbyte := hall ⟨b.toNat - 128, by have := b.toNat_lt; omega⟩
  simpa [hn] using hbyte

/-- A character in a written string. -/
theorem escapeChar_isText (c : Char) :
    Bytes.IsText ((String.utf8EncodeChar c).flatMap escapeByte) := by
  by_cases hc : c.val.toNat ≤ 127
  · have hbytes : String.utf8EncodeChar c = [UInt8.ofNat c.val.toNat] := by
      unfold String.utf8EncodeChar
      exact if_pos hc
    rw [hbytes, List.flatMap_cons, List.flatMap_nil, List.append_nil]
    refine (escapeByte_isAscii ?_).isText
    rw [UInt8.lt_iff_toNat_lt, UInt8.toNat_ofNat_of_lt' (Nat.lt_of_le_of_lt hc (by decide))]
    exact Nat.lt_succ_of_le hc
  · have hsame : (String.utf8EncodeChar c).flatMap escapeByte = String.utf8EncodeChar c := by
      rw [List.flatMap_congr fun b hb => escapeByte_of_le (Bytes.le_of_mem_utf8 (by omega) hb)]
      exact List.flatMap_singleton' _
    rw [hsame]
    exact ⟨String.ofList [c], by rw [Bytes.ofText_ofList]; simp⟩

theorem quote_isText (s : String) : (quote s).IsText := by
  have hbody : ∀ cs : List Char,
      Bytes.IsText ((cs.flatMap String.utf8EncodeChar).flatMap escapeByte) := by
    intro cs
    induction cs with
    | nil => exact Bytes.isText_ofText ""
    | cons c cs ih =>
      rw [List.flatMap_cons, List.flatMap_append]
      exact (escapeChar_isText c).append ih
  have hs : Bytes.ofText s = s.toList.flatMap String.utf8EncodeChar := by
    rw [← Bytes.ofText_ofList, String.ofList_toList]
  unfold quote
  rw [hs]
  exact .cons (by decide) ((hbody _).append (Bytes.isText_ofText "\""))

/-! ## Values -/

theorem number_isText (n : Nat) : (Decimal.bytes n).IsText := (digits_isAscii n).isText

theorem commaSeparated_isText {xs : List Bytes} (h : ∀ x ∈ xs, x.IsText) :
    (commaSeparated xs).IsText := by
  induction xs with
  | nil => exact Bytes.isText_ofText ""
  | cons x xs ih =>
    obtain ⟨hx, hxs⟩ := List.forall_mem_cons.1 h
    cases xs with
    | nil => exact hx
    | cons y ys => exact hx.append (.cons (by decide) (ih hxs))

mutual

/-- A value is written as text. -/
theorem Value.compact_isText (v : Value) : v.compact.IsText := by
  cases v with
  | null => exact Bytes.isText_ofText _
  | bool b => cases b <;> exact Bytes.isText_ofText _
  | number n => exact number_isText n.toNat
  | string s => exact quote_isText s
  | array items =>
    have hitems := commaSeparated_isText (Value.compactItems_isText items)
    exact .cons (by decide) (hitems.append (Bytes.isText_ofText "]"))
  | object members =>
    have hmembers := commaSeparated_isText (Value.compactMembers_isText members)
    exact .cons (by decide) (hmembers.append (Bytes.isText_ofText "\x7d"))

theorem Value.compactItems_isText (xs : List Value) :
    ∀ bs ∈ Value.compactItems xs, bs.IsText := by
  cases xs with
  | nil => exact List.forall_mem_nil _
  | cons x xs => exact List.forall_mem_cons.2 ⟨x.compact_isText, Value.compactItems_isText xs⟩

theorem Value.compactMembers_isText (xs : List (String × Value)) :
    ∀ bs ∈ Value.compactMembers xs, bs.IsText := by
  cases xs with
  | nil => exact List.forall_mem_nil _
  | cons m xs =>
    obtain ⟨key, x⟩ := m
    exact List.forall_mem_cons.2
      ⟨(quote_isText key).append (.cons (by decide) x.compact_isText),
        Value.compactMembers_isText xs⟩

end

theorem newLine_isText (depth : Nat) : (newLine depth).IsText := by
  have hspaces : Bytes.IsAscii (List.replicate (2 * depth) 0x20) := by
    intro b hb
    rw [List.eq_of_mem_replicate hb]
    decide
  exact .cons (by decide) hspaces.isText

mutual

theorem Value.prettyAt_isText (v : Value) (depth : Nat) : (v.prettyAt depth).IsText := by
  cases v with
  | null => exact Bytes.isText_ofText _
  | bool b => cases b <;> exact Bytes.isText_ofText _
  | number n => exact number_isText n.toNat
  | string s => exact quote_isText s
  | array items =>
    cases items with
    | nil => exact Bytes.isText_ofText _
    | cons x xs =>
      have hitems := commaSeparated_isText (Value.prettyItems_isText (x :: xs) (depth + 1))
      exact .cons (by decide)
        ((hitems.append (newLine_isText depth)).append (Bytes.isText_ofText "]"))
  | object members =>
    cases members with
    | nil => exact Bytes.isText_ofText "\x7b\x7d"
    | cons m ms =>
      have hmembers := commaSeparated_isText (Value.prettyMembers_isText (m :: ms) (depth + 1))
      exact .cons (by decide)
        ((hmembers.append (newLine_isText depth)).append (Bytes.isText_ofText "\x7d"))

theorem Value.prettyItems_isText (xs : List Value) (depth : Nat) :
    ∀ bs ∈ Value.prettyItems depth xs, bs.IsText := by
  cases xs with
  | nil => exact List.forall_mem_nil _
  | cons x xs =>
    exact List.forall_mem_cons.2
      ⟨(newLine_isText depth).append (x.prettyAt_isText depth), Value.prettyItems_isText xs depth⟩

theorem Value.prettyMembers_isText (xs : List (String × Value)) (depth : Nat) :
    ∀ bs ∈ Value.prettyMembers depth xs, bs.IsText := by
  cases xs with
  | nil => exact List.forall_mem_nil _
  | cons m xs =>
    obtain ⟨key, x⟩ := m
    have hvalue := Bytes.IsText.cons (b := 0x20) (by decide) (x.prettyAt_isText depth)
    exact List.forall_mem_cons.2
      ⟨((newLine_isText depth).append (quote_isText key)).append (.cons (by decide) hvalue),
        Value.prettyMembers_isText xs depth⟩

end

/-- A value is written on many lines as text. -/
theorem Value.pretty_isText (v : Value) : v.pretty.IsText := v.prettyAt_isText 0

end Json

end Rerun
