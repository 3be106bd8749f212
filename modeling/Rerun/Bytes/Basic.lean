/-!
# Byte strings

`Bytes` is a list of bytes. Text becomes bytes by its UTF-8 form; bytes become text either strictly
(`Bytes.text?`) or with every ill-formed part replaced (`Bytes.lossy`).
-/

namespace Rerun

abbrev Bytes := List UInt8

namespace Bytes

def ofText (s : String) : Bytes := s.toByteArray.data.toList

/-- The text that has this UTF-8 form, if one has. -/
def text? (bs : Bytes) : Option String := String.fromUTF8? ⟨bs.toArray⟩

@[simp] theorem text?_ofText (s : String) : text? (ofText s) = some s := by
  have h : (⟨(s.toByteArray.data.toList).toArray⟩ : ByteArray) = s.toByteArray := by simp
  unfold text? ofText String.fromUTF8?
  simp only [h]
  simp [s.isValidUTF8]
  rfl

theorem ofText_append (s t : String) : ofText (s ++ t) = ofText s ++ ofText t := by
  simp [ofText, String.toByteArray_append]

theorem ofText_inj {s t : String} (h : ofText s = ofText t) : s = t := by
  have := congrArg text? h
  simpa using this

theorem utf8_number (n : Fin 128) :
    String.utf8EncodeChar (Char.ofNat (UInt8.ofNat n).toNat) = [UInt8.ofNat n] := by
  revert n
  decide

/-- A byte below 128 is the form of the character that it numbers. -/
theorem utf8_ascii {b : UInt8} (h : b < 0x80) :
    String.utf8EncodeChar (Char.ofNat b.toNat) = [b] := by
  have hb : b.toNat < 128 := by simpa [UInt8.lt_iff_toNat_lt] using h
  simpa using utf8_number ⟨b.toNat, hb⟩

theorem ofText_ofList (cs : List Char) :
    ofText (String.ofList cs) = cs.flatMap String.utf8EncodeChar := by
  unfold ofText
  rw [String.toByteArray_ofList, List.utf8Encode, List.toList_data_toByteArray]

theorem ofText_ascii {bs : Bytes} (h : ∀ b ∈ bs, b < 0x80) :
    ofText (String.ofList (bs.map fun b => Char.ofNat b.toNat)) = bs := by
  rw [ofText_ofList]
  induction bs with
  | nil => rfl
  | cons b bs ih =>
    have hb := utf8_ascii (h b List.mem_cons_self)
    rw [List.map_cons, List.flatMap_cons, hb, ih fun c hc => h c (List.mem_cons_of_mem b hc)]
    rfl

/-! ## Fixed-width numbers -/

/-- Eight bytes, the most significant first. -/
def be64 (n : UInt64) : Bytes :=
  [(n >>> 56).toUInt8, (n >>> 48).toUInt8, (n >>> 40).toUInt8, (n >>> 32).toUInt8,
   (n >>> 24).toUInt8, (n >>> 16).toUInt8, (n >>> 8).toUInt8, n.toUInt8]

/-- Eight bytes, the least significant first. -/
def le64 (n : UInt64) : Bytes := (be64 n).reverse

@[simp] theorem be64_length (n : UInt64) : (be64 n).length = 8 := rfl

@[simp] theorem le64_length (n : UInt64) : (le64 n).length = 8 := rfl

/-- Reads eight bytes, the most significant first; more or fewer are no number. -/
def ofBe64? : Bytes → Option UInt64
  | [a, b, c, d, e, f, g, h] =>
    some ([a, b, c, d, e, f, g, h].foldl (fun n x => (n <<< 8) ||| x.toUInt64) 0)
  | _ => none

/-! ## Replacing ill-formed text -/

/-- A character under way: the continuation bytes still owed, the range that the next of them has
to be in, and the bits read so far. -/
structure Partial where
  owed : Nat
  low : UInt8
  high : UInt8
  bits : Nat

/-- What a byte at the start of a character does: a whole character, the start of a longer one, or
nothing that text can hold. -/
def Partial.start (b : UInt8) : Char ⊕ Option Partial :=
  let part (owed : Nat) (low high mask : UInt8) := some ⟨owed, low, high, (b &&& mask).toNat⟩
  if b < 0x80 then .inl (Char.ofNat b.toNat)
  else .inr <|
    if 0xC2 ≤ b && b ≤ 0xDF then part 1 0x80 0xBF 0x1F
    else if b == 0xE0 then part 2 0xA0 0xBF 0x0F
    else if b == 0xED then part 2 0x80 0x9F 0x0F
    else if 0xE1 ≤ b && b ≤ 0xEF then part 2 0x80 0xBF 0x0F
    else if b == 0xF0 then part 3 0x90 0xBF 0x07
    else if 0xF1 ≤ b && b ≤ 0xF3 then part 3 0x80 0xBF 0x07
    else if b == 0xF4 then part 3 0x80 0x8F 0x07
    else none

/-- Characters read so far, the last first, and the character under way. -/
structure Lossy where
  done : List Char
  pending : Option Partial

/-- Takes a byte where no character is under way. -/
def Lossy.begin (done : List Char) (b : UInt8) : Lossy :=
  match Partial.start b with
  | .inl c => ⟨c :: done, none⟩
  | .inr (some p) => ⟨done, some p⟩
  | .inr none => ⟨'\uFFFD' :: done, none⟩

/-- Takes the next byte. A byte that cannot continue the character under way ends it as ill-formed
and is read again as a first byte. -/
def Lossy.push (s : Lossy) (b : UInt8) : Lossy :=
  match s.pending with
  | none => Lossy.begin s.done b
  | some p =>
    if p.low ≤ b && b ≤ p.high then
      let bits := p.bits * 64 + (b &&& 0x3F).toNat
      if p.owed ≤ 1 then ⟨Char.ofNat bits :: s.done, none⟩
      else ⟨s.done, some ⟨p.owed - 1, 0x80, 0xBF, bits⟩⟩
    else Lossy.begin ('\uFFFD' :: s.done) b

/-- The text of some bytes. Every longest run that starts a character without completing it, and
every byte that starts none, becomes one replacement character. -/
def lossy (bs : Bytes) : String :=
  let s := bs.foldl Lossy.push ⟨[], none⟩
  String.ofList (if s.pending.isSome then '\uFFFD' :: s.done else s.done).reverse

end Bytes

end Rerun
