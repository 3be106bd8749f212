import Rerun.Json.Value
import Rerun.Proofs.Json.Written

/-!
# Plain text

A value all of whose strings are ASCII is written in ASCII (`Value.compact_isAscii`), so its text
has the bytes that were written (`Value.ofText_text`).
-/

namespace Rerun

namespace Bytes

/-- Every byte is below 128. -/
def IsAscii (bs : Bytes) : Prop := ∀ b ∈ bs, b < 0x80

instance (bs : Bytes) : Decidable bs.IsAscii := List.decidableBAll (fun b => b < 0x80) bs

theorem IsAscii.append {bs cs : Bytes} (hb : bs.IsAscii) (hc : cs.IsAscii) : (bs ++ cs).IsAscii :=
  List.forall_mem_append.2 ⟨hb, hc⟩

theorem IsAscii.cons {b : UInt8} {bs : Bytes} (hb : b < 0x80) (h : bs.IsAscii) :
    IsAscii (b :: bs) := List.forall_mem_cons.2 ⟨hb, h⟩

theorem push_ascii {bs : Bytes} (h : bs.IsAscii) (done : List Char) :
    bs.foldl Lossy.push ⟨done, none⟩ =
      ⟨(bs.map fun b => Char.ofNat b.toNat).reverse ++ done, none⟩ := by
  induction bs generalizing done with
  | nil => rfl
  | cons b bs ih =>
    obtain ⟨hb, hbs⟩ := List.forall_mem_cons.1 h
    have hpush : Lossy.push ⟨done, none⟩ b = ⟨Char.ofNat b.toNat :: done, none⟩ := by
      simp only [Lossy.push, Lossy.begin, Partial.start, if_pos hb]
    rw [List.foldl_cons, hpush, ih hbs]
    simp

/-- ASCII is taken as text character by character. -/
theorem lossy_ascii {bs : Bytes} (h : bs.IsAscii) :
    lossy bs = String.ofList (bs.map fun b => Char.ofNat b.toNat) := by
  unfold lossy
  rw [push_ascii h]
  simp

theorem ofText_lossy {bs : Bytes} (h : bs.IsAscii) : ofText (lossy bs) = bs := by
  rw [lossy_ascii h, ofText_ascii h]

end Bytes

namespace Json

/-! ## Strings and numbers -/

theorem escapeByte_isAscii {b : UInt8} (h : b < 0x80) : (escapeByte b).IsAscii := by
  have hall : ∀ n : Fin 128, (escapeByte (UInt8.ofNat n)).IsAscii := by decide
  have hb : b.toNat < 128 := by simpa [UInt8.lt_iff_toNat_lt] using h
  simpa using hall ⟨b.toNat, hb⟩

theorem quote_isAscii {s : String} (h : (Bytes.ofText s).IsAscii) : (quote s).IsAscii := by
  have hbody : Bytes.IsAscii ((Bytes.ofText s).flatMap escapeByte) := by
    intro c hc
    obtain ⟨b, hb, hc⟩ := List.mem_flatMap.1 hc
    exact escapeByte_isAscii (h b hb) c hc
  exact .cons (by decide) (hbody.append (by decide))

theorem digits_isAscii (n : Nat) : (Decimal.bytes n).IsAscii := by
  intro b hb
  obtain ⟨d, hd, rfl⟩ := List.mem_map.1 hb
  have hall : ∀ d : Fin 10, Decimal.digitByte d < 0x80 := by decide
  exact hall ⟨d, Decimal.digits_lt n d hd⟩

theorem commaSeparated_isAscii {xs : List Bytes} (h : ∀ x ∈ xs, x.IsAscii) :
    (commaSeparated xs).IsAscii := by
  induction xs with
  | nil => decide
  | cons x xs ih =>
    obtain ⟨hx, hxs⟩ := List.forall_mem_cons.1 h
    cases xs with
    | nil => exact hx
    | cons y ys => exact hx.append (.cons (by decide) (ih hxs))

/-! ## Values -/

mutual

/-- Every string in a value is ASCII. -/
def Value.IsAscii : Value → Prop
  | .null | .bool _ | .number _ => True
  | .string s => (Bytes.ofText s).IsAscii
  | .array items => Value.AllAscii items
  | .object members => Value.MembersAscii members

/-- Every string in some items is ASCII. -/
def Value.AllAscii : List Value → Prop
  | [] => True
  | x :: xs => x.IsAscii ∧ Value.AllAscii xs

/-- Every string in some members is ASCII. -/
def Value.MembersAscii : List (String × Value) → Prop
  | [] => True
  | (key, x) :: xs => (Bytes.ofText key).IsAscii ∧ x.IsAscii ∧ Value.MembersAscii xs

end

mutual

/-- ASCII values are written in ASCII. -/
theorem Value.compact_isAscii (v : Value) (h : v.IsAscii) : v.compact.IsAscii := by
  cases v with
  | null => decide
  | bool b => cases b <;> decide
  | number n => exact digits_isAscii n.toNat
  | string s => exact quote_isAscii h
  | array items =>
    have hitems := commaSeparated_isAscii (Value.compactItems_isAscii items h)
    exact .cons (by decide) (hitems.append (by decide))
  | object members =>
    have hmembers := commaSeparated_isAscii (Value.compactMembers_isAscii members h)
    exact .cons (by decide) (hmembers.append (by decide))

theorem Value.compactItems_isAscii (xs : List Value) (h : Value.AllAscii xs) :
    ∀ bs ∈ Value.compactItems xs, bs.IsAscii := by
  cases xs with
  | nil => simp [Value.compactItems]
  | cons x xs =>
    exact List.forall_mem_cons.2
      ⟨x.compact_isAscii h.1, Value.compactItems_isAscii xs h.2⟩

theorem Value.compactMembers_isAscii (xs : List (String × Value)) (h : Value.MembersAscii xs) :
    ∀ bs ∈ Value.compactMembers xs, bs.IsAscii := by
  cases xs with
  | nil => simp [Value.compactMembers]
  | cons m xs =>
    obtain ⟨key, x⟩ := m
    obtain ⟨hkey, hx, hxs⟩ := h
    exact List.forall_mem_cons.2
      ⟨(quote_isAscii hkey).append (.cons (by decide) (x.compact_isAscii hx)),
        Value.compactMembers_isAscii xs hxs⟩

end

/-- The text of an ASCII value has the bytes that were written. -/
theorem Value.ofText_text {v : Value} (h : v.IsAscii) : Bytes.ofText v.text = v.compact :=
  Bytes.ofText_lossy (v.compact_isAscii h)

/-- Reading the text of an ASCII value is reading its tree. -/
theorem decode_text {α : Type} (read : Node → Read α) {v : Value} (h : v.IsAscii) :
    decode read (Bytes.ofText v.text) = read v.node := by
  rw [Value.ofText_text h, decode_compact]

end Json

end Rerun
