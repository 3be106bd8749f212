import Rerun.Json.Codec

/-!
# Written digests

Hexadecimal text gives back the bytes that it was made from (`Hex.read_digits`), so the written form
of a digest is read as the digest (`Digest.parse_text`), and no two digests have the same one.
-/

namespace Rerun

/-- What holds of the first 256 numbers holds of every byte. -/
theorem Bytes.forall_byte {P : UInt8 → Prop} (h : ∀ n : Fin 256, P (UInt8.ofNat n)) (b : UInt8) :
    P b := by
  have hb := h ⟨b.toNat, b.toNat_lt⟩
  rwa [UInt8.ofNat_toNat] at hb

/-! ## Hexadecimal text -/

namespace Hex

/-- A byte is put together from its halves. -/
theorem halves_of_byte : ∀ b : UInt8,
    b >>> 4 < 16 ∧ b &&& 0x0F < 16 ∧ (b >>> 4) * 16 + (b &&& 0x0F) = b :=
  Bytes.forall_byte (by decide +kernel)

theorem toNat_high : ∀ b : UInt8, (b >>> 4).toNat = b.toNat / 16 :=
  Bytes.forall_byte (by decide +kernel)

theorem toNat_low : ∀ b : UInt8, (b &&& 0x0F).toNat = b.toNat % 16 :=
  Bytes.forall_byte (by decide +kernel)

theorem readPairs_digits (index : Nat) (bs : Bytes) : readPairs index (digits bs) = .ok bs := by
  induction bs generalizing index with
  | nil => rfl
  | cons b bs ih =>
    obtain ⟨hhigh, hlow, hb⟩ := halves_of_byte b
    rw [digits, List.flatMap_cons, ← digits]
    simp only [pair, List.cons_append, List.nil_append]
    rw [readPairs.eq_def]
    dsimp only
    rw [value?_digit _ hhigh]
    dsimp only
    rw [value?_digit _ hlow]
    dsimp only
    rw [ih, hb]
    rfl

/-- Hexadecimal text gives back its bytes. -/
theorem read_digits (bs : Bytes) : read (digits bs) = .ok bs := by
  unfold read
  rw [digits_length, if_neg (by omega)]
  exact readPairs_digits 0 bs

/-- The characters of hexadecimal text are digits or small letters. -/
theorem digit_class {n : UInt8} (h : n < 16) :
    digit n < 0x80 ∧ Text.isBlank (Char.ofNat (digit n).toNat) = false ∧
      Char.ofNat (digit n).toNat ≠ '/' := by
  have hall : ∀ n : Fin 16, digit (UInt8.ofNat n) < 0x80 ∧
      Text.isBlank (Char.ofNat (digit (UInt8.ofNat n)).toNat) = false ∧
        Char.ofNat (digit (UInt8.ofNat n)).toNat ≠ '/' := by decide
  have hn : n.toNat < 16 := by simpa [UInt8.lt_iff_toNat_lt] using h
  simpa using hall ⟨n.toNat, hn⟩

theorem digits_class {bs : Bytes} {d : UInt8} (h : d ∈ digits bs) :
    d < 0x80 ∧ Text.isBlank (Char.ofNat d.toNat) = false ∧ Char.ofNat d.toNat ≠ '/' := by
  obtain ⟨b, -, hd⟩ := List.mem_flatMap.1 h
  obtain ⟨hhigh, hlow, -⟩ := halves_of_byte b
  simp only [pair, List.mem_cons, List.not_mem_nil, or_false] at hd
  rcases hd with rfl | rfl
  · exact digit_class hhigh
  · exact digit_class hlow

theorem ofText_encode (bs : Bytes) : Bytes.ofText (encode bs) = digits bs :=
  Bytes.ofText_ascii fun _ hd => (digits_class hd).1

end Hex

/-! ## Texts without blanks -/

theorem Text.trimChars_eq {cs : List Char} (h : ∀ c ∈ cs, isBlank c = false) :
    trimChars cs = cs := by
  have hdrop : ∀ cs : List Char, (∀ c ∈ cs, isBlank c = false) → cs.dropWhile isBlank = cs := by
    intro cs h
    cases cs with
    | nil => rfl
    | cons c cs =>
      rw [List.dropWhile_cons, h c List.mem_cons_self, if_neg (by simp)]
  unfold trimChars
  rw [hdrop cs h, hdrop cs.reverse fun c hc => h c (List.mem_reverse.1 hc), List.reverse_reverse]

/-! ## Digests -/

namespace Digest

theorem ofText_text (d : Digest) :
    Bytes.ofText d.text = 0x30 :: 0x78 :: Hex.digits d.bytes := by
  unfold text
  rw [Bytes.ofText_append, Hex.ofText_encode]
  rfl

theorem toList_text (d : Digest) :
    d.text.toList = '0' :: 'x' :: (Hex.digits d.bytes).map fun b => Char.ofNat b.toNat := by
  have hmark : ("0x" : String).toList = ['0', 'x'] := by decide
  unfold text Hex.encode
  rw [String.toList_append, hmark, String.toList_ofList]
  rfl

/-- There is no blank and no slash in the text of a digest. -/
theorem text_class (d : Digest) {c : Char} (hc : c ∈ d.text.toList) :
    Text.isBlank c = false ∧ c ≠ '/' := by
  rw [toList_text, List.mem_cons, List.mem_cons] at hc
  rcases hc with rfl | rfl | hc
  · decide
  · decide
  · obtain ⟨b, hb, rfl⟩ := List.mem_map.1 hc
    exact (Hex.digits_class hb).2

theorem trim_text (d : Digest) : Text.trim d.text = d.text := by
  unfold Text.trim
  rw [Text.trimChars_eq fun c hc => (d.text_class hc).1, String.ofList_toList]

/-- The written form of a digest is read as the digest. -/
@[simp] theorem parse_text (d : Digest) : parse d.text = .ok d := by
  unfold parse
  rw [trim_text, ofText_text, stripMark, Hex.read_digits]
  dsimp only
  rw [dif_pos d.length_eq]

/-- Digests with one written form are the same. -/
theorem text_injective {d e : Digest} (h : d.text = e.text) : d = e := by
  have hp : parse d.text = parse e.text := by rw [h]
  rw [parse_text, parse_text] at hp
  cases hp
  rfl

end Digest

end Rerun
